import ModalEdit.Pattern.Item

/-!
# Matching

`Tree.ends` lists the positions at which a match that starts at a given position
can end, the preferred one first, each once. The first start with a match and
the first of its ends is the match that a search finds.

Repetitions are explored depth first. `Visits` remembers from where another
round has been started, so that a round that consumes nothing is not repeated.
-/

namespace ModalEdit.Pattern

/-- What an exploration has seen and found. -/
structure Visits where
  /-- Positions from which a round was started, with the number of rounds still allowed. -/
  seen : List (Nat × Nat)
  /-- Ends found, the latest first. -/
  found : List Nat

namespace Visits

/-- Nothing seen yet. -/
def start : Visits := ⟨[], []⟩

/-- Records an end, unless it is known. -/
def emit (v : Visits) (position : Nat) : Visits :=
  if v.found.contains position then v else { v with found := position :: v.found }

/-- Records the start of a round. -/
def mark (v : Visits) (rounds position : Nat) : Visits :=
  { v with seen := (rounds, position) :: v.seen }

/-- Whether a round was started there. -/
def isSeen (v : Visits) (rounds position : Nat) : Bool := v.seen.contains (rounds, position)

/-- The ends found, the preferred one first. -/
def ends (v : Visits) : List Nat := v.found.reverse

/-- At least one round from `position`; `step` gives the ends of one round. -/
def atLeastOnce (step : Nat → List Nat) (greedy : Bool) : Nat → Nat → Visits → Visits
  | 0, _, v => v
  | fuel + 1, position, v =>
    if v.isSeen 0 position then v
    else (step position).foldl
      (fun v next =>
        if greedy then (atLeastOnce step greedy fuel next v).emit next
        else atLeastOnce step greedy fuel next (v.emit next))
      (v.mark 0 position)

/-- At most `rounds` rounds from `position`. -/
def atMost (step : Nat → List Nat) (greedy : Bool) : Nat → Nat → Visits → Visits
  | 0, position, v => v.emit position
  | rounds + 1, position, v =>
    if v.isSeen rounds position then v
    else
      let v := if greedy then v else v.emit position
      ((step position).foldl (fun v next => atMost step greedy rounds next v)
        (v.mark rounds position)).emit position

end Visits

/-- The ends after exactly `rounds` rounds. -/
def exactly (step : Nat → List Nat) : Nat → List Nat → List Nat
  | 0, positions => positions
  | rounds + 1, positions => exactly step rounds (positions.flatMap step).eraseDups

/-- The ends of a repetition from `position` in a text of `size` characters. -/
def repetitionEnds (step : Nat → List Nat) (min : Nat) (max : Option Nat) (greedy : Bool)
    (size position : Nat) : List Nat :=
  match min, max with
  | min, some max =>
    ((exactly step min [position]).foldl (fun v p => Visits.atMost step greedy (max - min) p v)
      .start).ends
  | 0, none =>
    if greedy then ((Visits.atLeastOnce step greedy (size + 2) position .start).emit position).ends
    else (Visits.atLeastOnce step greedy (size + 2) position (Visits.start.emit position)).ends
  | min + 1, none =>
    ((exactly step min [position]).foldl
      (fun v p => Visits.atLeastOnce step greedy (size + 2) p v) .start).ends

/-- The ends of the matches of an item that start at a position. -/
def Item.ends (text : Array Char) : Item → Nat → List Nat
  | .one set _, position =>
    match text[position]? with
    | some c => if set.mem c then [position + 1] else []
    | none => []
  | .assertion a, position =>
    let before := if position = 0 then none else text[position - 1]?
    if a.holds before text[position]? then [position] else []

namespace Tree

/-- The ends of the matches that start at a position, the preferred one first. -/
def ends (text : Array Char) : Tree → Nat → List Nat
  | .empty, position | .setting, position => [position]
  | .item i, position => i.ends text position
  | .seq a b, position => ((ends text a position).flatMap (ends text b)).eraseDups
  | .alt a b, position => (ends text a position ++ ends text b position).eraseDups
  | .repetition op a, position =>
    repetitionEnds (ends text a) op.low op.high op.greedy text.size position
  | .group _ a, position => ends text a position

/-- The match with the first start from `from` on; `count` starts are tried. -/
def findFrom (tree : Tree) (text : Array Char) (start : Nat) : Nat → Option (Nat × Nat)
  | 0 => none
  | count + 1 =>
    match tree.ends text start with
    | stop :: _ => some (start, stop)
    | [] => tree.findFrom text (start + 1) count

/-- The first match from a position on. -/
def find? (tree : Tree) (text : Array Char) (start : Nat) : Option (Nat × Nat) :=
  tree.findFrom text start (text.size + 1 - start)

/-- Whether the pattern matches somewhere in a text. -/
def isMatch (tree : Tree) (text : List Char) : Bool :=
  (tree.find? text.toArray 0).isSome

/-- The matches from a position on, each starting where the one before it ended or later. An
empty match right at the end of the one before, `last`, is passed over. -/
def findAllFrom (tree : Tree) (text : Array Char) (last : Option Nat) (start : Nat) :
    Nat → List (Nat × Nat)
  | 0 => []
  | fuel + 1 =>
    let first := tree.find? text start
    let found := match first with
      | some (s, e) => if s = e ∧ last = some e then tree.find? text (start + 1) else first
      | none => none
    match found with
    | some (s, e) => (s, e) :: tree.findAllFrom text (some e) e fuel
    | none => []

/-- All matches in a text, as character positions. -/
def findAll (tree : Tree) (text : Array Char) : List (Nat × Nat) :=
  tree.findAllFrom text none 0 (2 * text.size + 2)

end Tree

end ModalEdit.Pattern
