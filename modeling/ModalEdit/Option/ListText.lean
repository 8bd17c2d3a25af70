/-!
# Lists as text

A list of texts is written with `:` between the elements; a `:` or `\` inside an
element gets a backslash in front. The empty text is the empty list.
-/

namespace ModalEdit.ListText

/-- The characters that a backslash makes part of an element. -/
def isSpecial (c : Char) : Bool := c = ':' || c = '\\'

/-- Writes one element. -/
def escape : List Char → List Char
  | [] => []
  | c :: rest => if isSpecial c then '\\' :: c :: escape rest else c :: escape rest

/-- Reads elements; `element` holds the characters of the current one, the latest first. -/
def splitFrom (element : List Char) : List Char → List (List Char)
  | [] => [element.reverse]
  | [c] => if c = ':' then [element.reverse, []] else [(c :: element).reverse]
  | c :: d :: rest =>
    if c = '\\' then
      if isSpecial d then splitFrom (d :: element) rest else splitFrom (d :: c :: element) rest
    else if c = ':' then element.reverse :: splitFrom [] (d :: rest)
    else splitFrom (c :: element) (d :: rest)

/-- The elements of a list written as text. -/
def split (text : String) : List String :=
  if text.isEmpty then [] else (splitFrom [] text.toList).map String.ofList

/-- Writes a list as text. -/
def join (items : List String) : String :=
  ":".intercalate (items.map fun item => String.ofList (escape item.toList))

end ModalEdit.ListText
