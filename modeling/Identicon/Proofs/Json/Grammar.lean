import Identicon.Json.Scalar
import Identicon.Proofs.Decimal.Digits

/-!
# The grammar of documents

What a JSON text is, said without a reader. A `Tree` is the text of a value without its blanks: the
parts of arrays and objects in the order in which they are written, numbers and strings digit by
digit and character by character. The same tree is written in many ways, which differ in the blanks
between its parts: `Tree.WrittenAs` relates it to these texts, and `Tree.WrittenIn` to the documents
that hold nothing else.

Not every tree stands for a value. A string may hold half a surrogate pair, a number may be out of
range, and brackets may be nested deeper than a reader allows. `Tree.value?` is the value that a
reader which may open so many brackets should find.

## Main definitions

* `Piece`, `decode`: a string as it is written, and the characters it stands for.
* `Numeral`: a number as it is written.
* `Tree`, `Tree.WrittenAs`, `Tree.WrittenIn`: texts of values, and documents.
* `Tree.value?`: the value of a tree.
-/

namespace Identicon.Json

/-! ## Strings -/

/-- One character of a string as it may be written: as it is, as a letter after a backslash, or as
the four hexadecimal digits of a code unit. -/
inductive Piece where
  | plain (c : Char) (h : 0x20 ≤ c.toNat ∧ c ≠ '"' ∧ c ≠ '\\')
  | letter (l c : Char) (h : simpleEscape? l = some c)
  | codeUnit (a b c d : Char) (n : ℕ) (h : hexQuad? [a, b, c, d] = some n)

/-- The written form of a character. -/
def Piece.text : Piece → List Char
  | .plain c _ => [c]
  | .letter l _ _ => ['\\', l]
  | .codeUnit a b c d _ _ => ['\\', 'u', a, b, c, d]

/-- The written form of a string after its opening quote. -/
def quotedRest (ps : List Piece) : List Char :=
  ps.flatMap Piece.text ++ ['"']

/-- The characters that a string stands for. Code units that open a surrogate pair stand for a
character together with the unit behind them, which has to close the pair. -/
def decode : List Piece → Option (List Char)
  | [] => some []
  | .plain c _ :: ps => (decode ps).map (c :: ·)
  | .letter _ c _ :: ps => (decode ps).map (c :: ·)
  | .codeUnit _ _ _ _ n _ :: ps =>
    if closesPair n then none
    else if opensPair n then
      match ps with
      | .codeUnit _ _ _ _ m _ :: ps =>
        if closesPair m then
          (decode ps).map (Char.ofNat (0x10000 + (n - 0xD800) * 0x400 + (m - 0xDC00)) :: ·)
        else none
      | _ => none
    else (decode ps).map (Char.ofNat n :: ·)

/-! ## Numbers -/

/-- A row of at least one digit. -/
structure Digits where
  text : List Char
  ne_nil : text ≠ []
  isDigit : ∀ c ∈ text, c.isDigit = true

/-- The sign of an exponent, if it is written. -/
inductive ExponentSign where
  | unsigned
  | plus
  | minus

/-- The written form of the sign of an exponent. -/
def ExponentSign.text : ExponentSign → List Char
  | .unsigned => []
  | .plus => ['+']
  | .minus => ['-']

/-- An exponent as it is written. -/
structure Exponent where
  mark : Char
  isMark : mark = 'e' ∨ mark = 'E'
  sign : ExponentSign
  digits : Digits

/-- A number as it is written. -/
structure Numeral where
  negative : Bool
  whole : List Char
  leading : Leading whole
  fraction : Option Digits
  exponent : Option Exponent

/-- The written form of the sign of a number. -/
def signText (negative : Bool) : List Char :=
  if negative then ['-'] else []

/-- The written form of a fraction, from the point on. -/
def fractionText : Option Digits → List Char
  | none => []
  | some digits => '.' :: digits.text

/-- The written form of an exponent, from its letter on. -/
def exponentText : Option Exponent → List Char
  | none => []
  | some e => e.mark :: (e.sign.text ++ e.digits.text)

/-- The written form of a number. -/
def Numeral.text (x : Numeral) : List Char :=
  signText x.negative ++ (x.whole ++ (fractionText x.fraction ++ exponentText x.exponent))

/-- The number that a numeral stands for, which is what is read where it stands alone. -/
def Numeral.number? (x : Numeral) : Option Number :=
  (readNumber .scaled x.text).toOption.map (·.1)

/-! ## Values -/

/-- The text of a value without its blanks. -/
inductive Tree where
  | null
  | boolean (b : Bool)
  | number (x : Numeral)
  | string (ps : List Piece)
  | array (items : List Tree)
  | object (members : List (List Piece × Tree))

/-- A row of blanks, which may be empty. -/
structure Blanks where
  text : List Char
  blank : ∀ c ∈ text, isBlank c = true

/-- An item of an array with the blanks around it. -/
structure Slot where
  before : Blanks
  tree : Tree
  text : List Char
  after : Blanks

/-- The text of an item up to the comma or bracket behind it. -/
def Slot.padded (p : Slot) : List Char :=
  p.before.text ++ (p.text ++ p.after.text)

/-- A member of an object with the blanks around its key and its value. -/
structure Member where
  before : Blanks
  key : List Piece
  after : Blanks
  slot : Slot

/-- The text of a member from the end of its key on, up to the comma or brace behind it. -/
def Member.fromColon (m : Member) : List Char :=
  m.after.text ++ ':' :: m.slot.padded

/-- The text of a member up to the comma or brace behind it. -/
def Member.padded (m : Member) : List Char :=
  m.before.text ++ '"' :: (quotedRest m.key ++ m.fromColon)

/-- The key and the value of a member. -/
def Member.entry (m : Member) : List Piece × Tree :=
  (m.key, m.slot.tree)

/-- Texts with commas between them. -/
def separated : List (List Char) → List Char
  | [] => []
  | s :: ss => s ++ ss.flatMap (',' :: ·)

namespace Tree

/-- The texts that a tree is written as. In front of the first part, or in its place where there is
none, an array or object may have blanks. -/
inductive WrittenAs : Tree → List Char → Prop
  | null : WrittenAs .null "null".toList
  | boolean (b : Bool) : WrittenAs (.boolean b) (printBoolean b)
  | number (x : Numeral) : WrittenAs (.number x) x.text
  | string (ps : List Piece) : WrittenAs (.string ps) ('"' :: quotedRest ps)
  | array (inside : Blanks) (slots : List Slot) (h : ∀ p ∈ slots, WrittenAs p.tree p.text) :
    WrittenAs (.array (slots.map Slot.tree))
      ('[' :: (inside.text ++ (separated (slots.map Slot.padded) ++ [']'])))
  | object (inside : Blanks) (members : List Member)
      (h : ∀ m ∈ members, WrittenAs m.slot.tree m.slot.text) :
    WrittenAs (.object (members.map Member.entry))
      ('{' :: (inside.text ++ (separated (members.map Member.padded) ++ ['}'])))

/-- The documents that hold a tree and nothing else. -/
def WrittenIn (t : Tree) (s : List Char) : Prop :=
  ∃ (before after : Blanks) (text : List Char),
    t.WrittenAs text ∧ s = before.text ++ (text ++ after.text)

mutual

/-- The value of a tree whose brackets are nested at most `n` deep. -/
def value? : ℕ → Tree → Option Value
  | _, .null => some .null
  | _, .boolean b => some (.boolean b)
  | _, .number x => x.number?.map .number
  | _, .string ps => (decode ps).map .string
  | 0, .array _ => none
  | n + 1, .array ts => (itemValues? n ts).map .array
  | 0, .object _ => none
  | n + 1, .object ms => (memberValues? n ms).map .object

/-- The values of the items of an array. -/
def itemValues? : ℕ → List Tree → Option (List Value)
  | _, [] => some []
  | n, t :: ts => do
    let v ← value? n t
    let vs ← itemValues? n ts
    return v :: vs

/-- The keys and values of the members of an object. -/
def memberValues? : ℕ → List (List Piece × Tree) → Option (List (List Char × Value))
  | _, [] => some []
  | n, (ps, t) :: ms => do
    let key ← decode ps
    let v ← value? n t
    let vs ← memberValues? n ms
    return (key, v) :: vs

end

end Tree

/-! ## Where values begin -/

/-- The first character of the text of a value, which tells its kind. -/
def Tree.BeginsWith : Tree → Char → Prop
  | .null, c => c = 'n'
  | .boolean b, c => c = if b then 't' else 'f'
  | .number _, c => c = '-' ∨ c.isDigit = true
  | .string _, c => c = '"'
  | .array _, c => c = '['
  | .object _, c => c = '{'

theorem Numeral.exists_text_eq_cons (x : Numeral) :
    ∃ c s, x.text = c :: s ∧ (c = '-' ∨ c.isDigit = true) := by
  obtain ⟨negative, whole, ⟨hne, hdigits, -⟩, fraction, exponent⟩ := x
  obtain ⟨c, digits, rfl⟩ := List.exists_cons_of_ne_nil hne
  cases negative with
  | true => exact ⟨'-', _, rfl, .inl rfl⟩
  | false => exact ⟨c, _, rfl, .inr (hdigits c List.mem_cons_self)⟩

theorem Tree.WrittenAs.exists_cons {t : Tree} {text : List Char} (h : t.WrittenAs text) :
    ∃ c s, text = c :: s ∧ t.BeginsWith c := by
  cases h with
  | null => exact ⟨'n', _, rfl, rfl⟩
  | boolean b =>
    cases b with
    | true => exact ⟨'t', _, rfl, rfl⟩
    | false => exact ⟨'f', _, rfl, rfl⟩
  | number x => exact x.exists_text_eq_cons
  | string ps => exact ⟨'"', _, rfl, rfl⟩
  | array => exact ⟨'[', _, rfl, rfl⟩
  | object => exact ⟨'{', _, rfl, rfl⟩

end Identicon.Json
