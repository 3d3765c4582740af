import Harbour.Document.Value

namespace Harbour.Document

def isGap (c : Char) : Bool := c = ' ' ∨ c = '\n' ∨ c = '\t' ∨ c = '\r'

def skipGaps (cs : List Char) : List Char := cs.dropWhile isGap

-- Each reader gives what it found and, when nothing was broken, the rest of
-- the text. Every call either passes a character or goes from a list to its
-- next item, so twice the length of the text is fuel enough.
mutual
def readValue : Nat → List Char → Value × Option (List Char)
  | 0,_ => (.broken,none)
  | fuel+1,cs =>
      match skipGaps cs with
      | 'n' :: 'u' :: 'l' :: 'l' :: cs => (.null,some cs)
      | 't' :: 'r' :: 'u' :: 'e' :: cs => (.flag true,some cs)
      | 'f' :: 'a' :: 'l' :: 's' :: 'e' :: cs => (.flag false,some cs)
      | '"' :: cs =>
          match Quoted.read cs with
          | some (content,cs) => (.text content,some cs)
          | none => (.broken,none)
      | '[' :: cs =>
          match skipGaps cs with
          | ']' :: cs => (.list .done,some cs)
          | cs =>
              let (items,rest) := readItems fuel cs
              (.list items,rest)
      | '\x7b' :: cs =>
          match skipGaps cs with
          | '\x7d' :: cs => (.object .done,some cs)
          | cs =>
              let (members,rest) := readMembers fuel cs
              (.object members,rest)
      | cs =>
          match Numeral.read cs with
          | some (n,cs) => (.number n,some cs)
          | none => (.broken,none)

def readItems : Nat → List Char → Items × Option (List Char)
  | 0,_ => (.broken,none)
  | fuel+1,cs =>
      match readValue fuel cs with
      | (v,none) => (.more v .broken,none)
      | (v,some cs) =>
          match skipGaps cs with
          | ',' :: cs =>
              let (items,rest) := readItems fuel cs
              (.more v items,rest)
          | ']' :: cs => (.more v .done,some cs)
          | _ => (.more v .broken,none)

def readMembers : Nat → List Char → Members × Option (List Char)
  | 0,_ => (.broken,none)
  | fuel+1,cs =>
      match skipGaps cs with
      | '"' :: cs =>
          match Quoted.read cs with
          | none => (.broken,none)
          | some (key,cs) =>
              match skipGaps cs with
              | ':' :: cs =>
                  match readValue fuel cs with
                  | (v,none) => (.more key v .broken,none)
                  | (v,some cs) =>
                      match skipGaps cs with
                      | ',' :: cs =>
                          let (members,rest) := readMembers fuel cs
                          (.more key v members,rest)
                      | '\x7d' :: cs => (.more key v .done,some cs)
                      | _ => (.more key v .broken,none)
              | _ => (.more key .broken .broken,none)
      | _ => (.broken,none)
end

def read (text : String) : Value × Bool :=
  let cs := text.toList
  match readValue (2 * cs.length + 2) cs with
  | (v,some cs) => (v,(skipGaps cs).isEmpty)
  | (v,none) => (v,false)

end Harbour.Document
