import Harbour.Document.Numeral
import Harbour.Document.Quoted

namespace Harbour.Document

-- Reading never fails outright: where the text stops being a document the tree
-- ends in `broken`, and whoever walks it from left to right meets that end in
-- its own place. Text and keys hold no content when they contain half of a
-- surrogate pair.
mutual
inductive Value where
  | null
  | flag (b : Bool)
  | number (n : Numeral)
  | text (content : Option String)
  | list (items : Items)
  | object (members : Members)
  | broken

inductive Items where
  | done
  | broken
  | more (v : Value) (rest : Items)

inductive Members where
  | done
  | broken
  | more (key : Option String) (v : Value) (rest : Members)
end

instance : Inhabited Value := ⟨.null⟩

namespace Value

def string (s : String) : Value := .text (some s)
def ofNat (n : Nat) : Value := .number (.ofNat n)
def ofInt (i : Int) : Value := .number (.ofInt i)

end Value

def Items.ofList : List Value → Items
  | [] => .done
  | v :: rest => .more v (ofList rest)

def Members.ofList : List (String × Value) → Members
  | [] => .done
  | (key,v) :: rest => .more (some key) v (ofList rest)

-- Well formed throughout. Halves of surrogate pairs and numbers of any size
-- pass: a value that nobody reads need not have a meaning.
mutual
def Value.intact : Value → Bool
  | .list items => items.intact
  | .object members => members.intact
  | .broken => false
  | _ => true

def Items.intact : Items → Bool
  | .done => true
  | .broken => false
  | .more v rest => v.intact && rest.intact

def Members.intact : Members → Bool
  | .done => true
  | .broken => false
  | .more _ v rest => v.intact && rest.intact
end

structure Layout where
  line : Nat → List Char
  gap : List Char

def Layout.compact : Layout := ⟨fun _ => [],[]⟩

def Layout.pretty : Layout := ⟨fun depth => '\n' :: List.replicate (2 * depth) ' ',[' ']⟩

def flagText (b : Bool) : List Char :=
  if b then ['t','r','u','e'] else ['f','a','l','s','e']

def nullText : List Char := ['n','u','l','l']

mutual
def Value.write (layout : Layout) (depth : Nat) : Value → List Char
  | .null => nullText
  | .flag b => flagText b
  | .number n => n.text
  | .text content => Quoted.write (content.getD "").toList
  | .list .done => ['[',']']
  | .list items => '[' :: items.write layout (depth + 1) ++ layout.line depth ++ [']']
  | .object .done => ['\x7b','\x7d']
  | .object members => '\x7b' :: members.write layout (depth + 1) ++ layout.line depth ++ ['\x7d']
  | .broken => []

def Items.write (layout : Layout) (depth : Nat) : Items → List Char
  | .more v .done => layout.line depth ++ v.write layout depth
  | .more v rest => layout.line depth ++ v.write layout depth ++ ',' :: rest.write layout depth
  | _ => []

def Members.write (layout : Layout) (depth : Nat) : Members → List Char
  | .more key v rest =>
      layout.line depth ++ Quoted.write (key.getD "").toList ++ ':' :: layout.gap ++
        v.write layout depth ++
          match rest with
          | .done => []
          | rest => ',' :: rest.write layout depth
  | _ => []
end

def Value.compact (v : Value) : String := String.ofList (v.write .compact 0)

def Value.pretty (v : Value) : String := String.ofList (v.write .pretty 0)

end Harbour.Document
