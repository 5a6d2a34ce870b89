import Marshal.Text.Hex

/-!
# Tokens of a limits text

A limits text is JSON that consists of braces, brackets, colons, commas, quoted
names and natural numbers only.  `Token.ofText?` cuts a text into these tokens
and refuses a text with anything else in it.
-/

namespace Marshal.Limits

inductive Token where
  | openBrace
  | closeBrace
  | openBracket
  | closeBracket
  | colon
  | comma
  | name (text : List Char)
  | natural (value : Nat)
deriving DecidableEq

namespace Token

def isBlank (c : Char) : Bool := c = ' ' ∨ c = '\t' ∨ c = '\n' ∨ c = '\r'

/-- The tokens of one character. -/
def mark? (c : Char) : Option Token :=
  if c = '\x7b' then some openBrace
  else if c = '\x7d' then some closeBrace
  else if c = '[' then some openBracket
  else if c = ']' then some closeBracket
  else if c = ':' then some colon
  else if c = ',' then some comma
  else none

/-! ## Names -/

/-- The character of a one-letter escape. -/
def escape? (c : Char) : Option Char :=
  if c = '"' ∨ c = '\\' ∨ c = '/' then some c
  else if c = 'b' then some '\x08'
  else if c = 'f' then some '\x0c'
  else if c = 'n' then some '\n'
  else if c = 'r' then some '\r'
  else if c = 't' then some '\t'
  else none

/-- The character that four hexadecimal digits number.  Halves of a surrogate
pair are refused: no limit has a name that needs them. -/
def numbered? (digits : List Char) : Option Char :=
  match Hex.read? digits with
  | some code => if 0xd800 ≤ code ∧ code ≤ 0xdfff then none else some (Char.ofNat code)
  | none => none

/-- A quoted name after its opening quote, and what follows its closing one. -/
def quoted? : List Char → Option (List Char × List Char)
  | [] => none
  | '"' :: rest => some ([], rest)
  | '\\' :: 'u' :: a :: b :: c :: d :: rest =>
    match numbered? [a, b, c, d], quoted? rest with
    | some char, some (chars, rest) => some (char :: chars, rest)
    | _, _ => none
  | '\\' :: c :: rest =>
    match escape? c, quoted? rest with
    | some char, some (chars, rest) => some (char :: chars, rest)
    | _, _ => none
  | c :: rest =>
    if c < ' ' then none
    else
      match quoted? rest with
      | some (chars, rest) => some (c :: chars, rest)
      | none => none

/-- A quoted name takes at least its closing quote off the text. -/
theorem length_lt_of_quoted? {text chars rest : List Char}
    (h : quoted? text = some (chars, rest)) : rest.length < text.length := by
  fun_induction quoted? text generalizing chars rest with
  | case3 => simp only [List.length_cons]; grind
  | _ => grind

/-! ## Texts -/

def ofDigits (digits : List Char) : Nat := digits.foldl (fun n c => 10 * n + (c.toNat - 48)) 0

/-- The tokens of a text.  A number has no needless leading zero. -/
def ofText? (text : List Char) : Option (List Token) :=
  match text with
  | [] => some []
  | c :: rest =>
    if isBlank c then ofText? rest
    else if c.isDigit then
      let digits := c :: rest.takeWhile Char.isDigit
      if c = '0' ∧ digits.length ≠ 1 then none
      else (natural (ofDigits digits) :: ·) <$> ofText? (rest.dropWhile Char.isDigit)
    else if c = '"' then
      match _h : quoted? rest with
      | some (text, rest) => (name text :: ·) <$> ofText? rest
      | none => none
    else
      match mark? c with
      | some token => (token :: ·) <$> ofText? rest
      | none => none
termination_by text.length
decreasing_by
  · simp
  · have := (List.dropWhile_sublist (l := rest) Char.isDigit).length_le
    simp; omega
  · have := length_lt_of_quoted? _h
    simp; omega
  · simp

end Token

end Marshal.Limits
