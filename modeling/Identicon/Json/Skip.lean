import Identicon.Json.Reader

/-!
# Passing over JSON

Passing over a value that nobody asked for. Its text has to be JSON, but nothing is made of it: a
number may be of any size, a string may hold half a surrogate pair, and brackets may be nested to
any depth, since the ones that are open stand in a list and not in a recursion.

That the walk through a value ends is seen from the text: each step but the one into a bracket
leaves less of it. The lemmas between the definitions say so for the parts of a step.
-/

namespace Identicon.Json

/-! ## Scalars -/

/-- Dropping characters leaves no more text. -/
theorem length_dropWhile_le {p : Char → Bool} (s : List Char) :
    (s.dropWhile p).length ≤ s.length :=
  (List.dropWhile_suffix p).length_le

/-- Reading the rest of a word leaves no more text. -/
theorem length_le_of_readWord {word s rest : List Char} (h : readWord word s = .ok rest) :
    rest.length ≤ s.length := by
  fun_induction readWord word s with
  | case1 s => simp_all
  | case2 => simp at h
  | case3 w ws s ih =>
    have := ih h
    simp only [List.length_cons]
    omega
  | case4 => simp at h

/-- The text after the letter of an exponent is no longer than the text from it on. -/
theorem length_le_of_exponentMark {s rest : List Char} (h : exponentMark s = some rest) :
    rest.length ≤ s.length := by
  unfold exponentMark at h
  split at h
  · simp_all
  · simp_all
  · simp at h

/-- The text after a sign, if there is one. -/
def skipSign : List Char → List Char
  | '+' :: s => s
  | '-' :: s => s
  | s => s

/-- Passing over a sign leaves no more text. -/
theorem length_skipSign_le (s : List Char) : (skipSign s).length ≤ s.length := by
  unfold skipSign
  split <;> simp

/-- Passes over an exponent after its letter. -/
def skipExponent (s : List Char) : Except Fault (List Char) :=
  match skipSign s with
  | [] => .error (.here .invalidNumber [])
  | c :: rest =>
    if c.isDigit then .ok (rest.dropWhile Char.isDigit)
    else .error (.next .invalidNumber (c :: rest))

/-- Passing over an exponent leaves no more text. -/
theorem length_le_of_skipExponent {s rest : List Char} (h : skipExponent s = .ok rest) :
    rest.length ≤ s.length := by
  have hs := length_skipSign_le s
  unfold skipExponent at h
  split at h
  · simp at h
  · next c r hr =>
    have := length_dropWhile_le (p := Char.isDigit) r
    split at h
    · simp_all
      omega
    · simp at h

/-- Passes over an exponent, if there is one. -/
def skipOptionalExponent (s : List Char) : Except Fault (List Char) :=
  match exponentMark s with
  | some rest => skipExponent rest
  | none => .ok s

/-- Passing over an exponent that may be missing leaves no more text. -/
theorem length_le_of_skipOptionalExponent {s rest : List Char}
    (h : skipOptionalExponent s = .ok rest) : rest.length ≤ s.length := by
  unfold skipOptionalExponent at h
  split at h
  · next r hr =>
    have := length_le_of_exponentMark hr
    have := length_le_of_skipExponent h
    omega
  · simp_all

/-- Passes over what may follow the digits before the point. -/
def skipNumberTail (s : List Char) : Except Fault (List Char) :=
  match s with
  | '.' :: s =>
    let rest := s.dropWhile Char.isDigit
    if (s.takeWhile Char.isDigit).isEmpty then .error (.next .invalidNumber rest)
    else skipOptionalExponent rest
  | s => skipOptionalExponent s

/-- Passing over what follows the digits before the point leaves no more text. -/
theorem length_le_of_skipNumberTail {s rest : List Char} (h : skipNumberTail s = .ok rest) :
    rest.length ≤ s.length := by
  unfold skipNumberTail at h
  split at h
  · next s =>
    have hd := length_dropWhile_le (p := Char.isDigit) s
    simp only at h
    split at h
    · simp at h
    · have := length_le_of_skipOptionalExponent h
      simp only [List.length_cons]
      omega
  · exact length_le_of_skipOptionalExponent h

/-- Passes over a number without its sign. -/
def skipMagnitude (s : List Char) : Except Fault (List Char) :=
  match s with
  | [] => .error (.here .invalidNumber [])
  | c :: rest =>
    if c = '0' then
      if (rest.takeWhile Char.isDigit).isEmpty then skipNumberTail rest
      else .error (.next .invalidNumber rest)
    else if c.isDigit then skipNumberTail (rest.dropWhile Char.isDigit)
    else .error (.next .invalidNumber (c :: rest))

/-- A number without its sign has at least one character. -/
theorem length_lt_of_skipMagnitude {s rest : List Char} (h : skipMagnitude s = .ok rest) :
    rest.length < s.length := by
  unfold skipMagnitude at h
  split at h
  · simp at h
  · next c r =>
    have hd := length_dropWhile_le (p := Char.isDigit) r
    simp only [List.length_cons]
    split at h
    · split at h
      · have := length_le_of_skipNumberTail h
        omega
      · simp at h
    · split at h
      · have := length_le_of_skipNumberTail h
        omega
      · simp at h

/-- How many characters of the text after a backslash belong to an escape. -/
def skipEscape (s : List Char) : Except Fault Nat :=
  match s with
  | [] => .error (.here .endInString [])
  | 'u' :: s => do
    let _ ← hexQuad s
    return 5
  | c :: s =>
    match simpleEscape? c with
    | some _ => .ok 1
    | none => .error (.next .invalidEscape (c :: s))

/-- Passes over a string after its opening quote, where the first `pending` characters of the text
belong to an escape that has been seen. -/
def skipStringAfter (pending : Nat) : List Char → Except Fault (List Char)
  | [] => .error (.here .endInString [])
  | c :: rest =>
    match pending with
    | n + 1 => skipStringAfter n rest
    | 0 =>
      if c = '"' then .ok rest
      else if c = '\\' then
        match skipEscape rest with
        | .ok n => skipStringAfter n rest
        | .error f => .error f
      else if c.toNat < 0x20 then .error (.here .controlCharacter (c :: rest))
      else skipStringAfter 0 rest

/-- Passes over a string after its opening quote. -/
def skipString (s : List Char) : Except Fault (List Char) :=
  skipStringAfter 0 s

/-- A string is passed over up to its closing quote at least. -/
theorem length_lt_of_skipStringAfter {pending : Nat} {s rest : List Char}
    (h : skipStringAfter pending s = .ok rest) : rest.length < s.length := by
  induction s generalizing pending with
  | nil => simp [skipStringAfter] at h
  | cons c s ih =>
    have step {n : Nat} (h : skipStringAfter n s = .ok rest) : rest.length < s.length + 1 :=
      Nat.lt_succ_of_lt (ih h)
    unfold skipStringAfter at h
    split at h
    · exact step h
    · split at h
      · simp_all
      · split at h
        · split at h
          · exact step h
          · simp at h
        · split at h
          · simp at h
          · exact step h

/-- The rest of a string has at least its closing quote. -/
theorem length_lt_of_skipString {s rest : List Char} (h : skipString s = .ok rest) :
    rest.length < s.length :=
  length_lt_of_skipStringAfter h

/-! ## Arrays and objects -/

/-- An array or object that is open. -/
inductive Bracket where
  | array
  | object
deriving DecidableEq

/-- Passes over a key and its colon. -/
def skipKey (s : List Char) : Except Fault (List Char) :=
  match skipBlanks s with
  | [] => .error (.here .endInObject [])
  | c :: rest =>
    if c = '"' then
      match skipString rest with
      | .ok rest => readColon rest
      | .error f => .error f
    else .error (.next .keyNotString (c :: rest))

/-- Reading a colon leaves less text. -/
theorem length_lt_of_readColon {s rest : List Char} (h : readColon s = .ok rest) :
    rest.length < s.length := by
  unfold readColon at h
  split at h
  · simp at h
  · next c r hr =>
    have := length_lt_of_skipBlanks hr
    split at h <;> simp_all

/-- Passing over a key and its colon leaves less text. -/
theorem length_lt_of_skipKey {s rest : List Char} (h : skipKey s = .ok rest) :
    rest.length < s.length := by
  unfold skipKey at h
  split at h
  · simp at h
  · next c r hr =>
    have := length_lt_of_skipBlanks hr
    split at h
    · split at h
      · next r' hr' =>
        have := length_lt_of_skipString hr'
        have := length_lt_of_readColon h
        omega
      · simp at h
    · simp at h

/-- Gets to the value of the next part of a bracket. -/
def Bracket.skipToValue : Bracket → List Char → Except Fault (List Char)
  | .array, s => .ok s
  | .object, s => skipKey s

/-- Getting to the value of a part leaves no more text. -/
theorem length_le_of_skipToValue {b : Bracket} {s rest : List Char}
    (h : b.skipToValue s = .ok rest) : rest.length ≤ s.length := by
  cases b with
  | array => simp_all [Bracket.skipToValue]
  | object => exact Nat.le_of_lt (length_lt_of_skipKey h)

/-- The closing counterpart of a bracket. -/
def Bracket.closing : Bracket → Char
  | .array => ']'
  | .object => '}'

/-- The problem with a text that ends inside a bracket. -/
def Bracket.atEnd : Bracket → Problem
  | .array => .endInArray
  | .object => .endInObject

/-- The problem with a part of a bracket that neither a comma nor the closing bracket follows. -/
def Bracket.atPartEnd : Bracket → Problem
  | .array => .expectedItemEnd
  | .object => .expectedMemberEnd

/-- Passes over a scalar, from the text after its first character `c`. -/
def skipScalar (c : Char) (rest : List Char) : Except Fault (List Char) :=
  if c = 'n' then readWord "ull".toList rest
  else if c = 't' then readWord "rue".toList rest
  else if c = 'f' then readWord "alse".toList rest
  else if c = '-' then skipMagnitude rest
  else if c.isDigit then skipMagnitude (c :: rest)
  else if c = '"' then skipString rest
  else .error (.next .expectedValue (c :: rest))

/-- Passing over a scalar leaves no more text than follows its first character. -/
theorem length_le_of_skipScalar {c : Char} {s rest : List Char} (h : skipScalar c s = .ok rest) :
    rest.length ≤ s.length := by
  unfold skipScalar at h
  split at h
  · exact length_le_of_readWord h
  split at h
  · exact length_le_of_readWord h
  split at h
  · exact length_le_of_readWord h
  split at h
  · exact Nat.le_of_lt (length_lt_of_skipMagnitude h)
  split at h
  · exact Nat.le_of_lt_succ (length_lt_of_skipMagnitude h)
  split at h
  · exact Nat.le_of_lt (length_lt_of_skipString h)
  · simp at h

/-- What a walk through a value does next. -/
inductive Step where
  /-- A value begins. -/
  | value
  /-- The bracket has just been opened. -/
  | opened
  /-- A value has just ended. -/
  | ended
deriving DecidableEq

/-- A step after which there may be as much text as before it comes before the others. -/
def Step.rank : Step → Nat
  | .opened => 1
  | _ => 0

/-- Walks on through a value, with these brackets open, until all of them are closed. -/
def skipFrom (step : Step) (brackets : List Bracket) (s : List Char) : Except Fault (List Char) :=
  match step, brackets with
  | .value, brackets =>
    match _hs : skipBlanks s with
    | [] => .error (.here .endInValue [])
    | c :: rest =>
      if c = '[' then skipFrom .opened (.array :: brackets) rest
      else if c = '{' then skipFrom .opened (.object :: brackets) rest
      else
        match _hr : skipScalar c rest with
        | .ok rest => skipFrom .ended brackets rest
        | .error f => .error f
  | .ended, [] => .ok s
  | .opened, [] => .ok s
  | .ended, b :: brackets =>
    match _hs : skipBlanks s with
    | [] => .error (.here b.atEnd [])
    | c :: rest =>
      if c = ',' then
        match _hr : b.skipToValue rest with
        | .ok rest => skipFrom .value (b :: brackets) rest
        | .error f => .error f
      else if c = b.closing then skipFrom .ended brackets rest
      else .error (.next b.atPartEnd (c :: rest))
  | .opened, b :: brackets =>
    match _hs : skipBlanks s with
    | [] => .error (.here b.atEnd [])
    | c :: rest =>
      if c = b.closing then skipFrom .ended brackets rest
      else
        match _hr : b.skipToValue (c :: rest) with
        | .ok rest => skipFrom .value (b :: brackets) rest
        | .error f => .error f
termination_by (s.length, step.rank)
decreasing_by
  all_goals have := length_lt_of_skipBlanks _hs
  · simp only [Prod.lex_def]; omega
  · simp only [Prod.lex_def]; omega
  · have := length_le_of_skipScalar _hr
    simp only [Prod.lex_def]; omega
  · have := length_le_of_skipToValue _hr
    simp only [Prod.lex_def]; omega
  · simp only [Prod.lex_def]; omega
  · simp only [Prod.lex_def]; omega
  · have := length_le_of_skipToValue _hr
    simp only [Prod.lex_def, Step.rank, List.length_cons] at this ⊢; omega

/-- Passes over a value. -/
def skipValue (s : List Char) : Except Fault (List Char) :=
  skipFrom .value [] s

end Identicon.Json
