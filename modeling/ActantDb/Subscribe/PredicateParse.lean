import ActantDb.Subscribe.Predicate

/-!
# The predicate parser

A lexer over the bytes of the text and a recursive-descent parser over its tokens. The lexer takes a byte for a character (`bytes[i] as char`), which outside of string literals cuts some characters in two, and slicing there panics; it reads a number wherever a digit begins, in a path as well.

What is printed with `{:?}` of a token in an error is left to a parameter of `message`.
-/

namespace ActantDb

/-! ### Numbers -/

/-- The double of a sign and a natural number. -/
def F64.ofNatural (negative : Bool) (n : Nat) : F64 :=
  if 2 ^ 1024 ≤ n then ⟨(if negative then 0xfff0000000000000 else 0x7ff0000000000000)⟩ else .ofMagnitude negative n

/-- The double nearest to `num / den`, ties to even. -/
def F64.ofRatio (negative : Bool) (num den : Nat) : F64 :=
  let sign := if negative then 2 ^ 63 else 0
  -- a unit in which the quotient has at most 54 bits, and one more where it has 54
  let u : Int := max ((num.log2 : Int) - den.log2 - 53) (-1074)
  let scaled (u : Int) : Nat × Nat := if 0 ≤ u then (num, den * 2 ^ u.toNat) else (num * 2 ^ (-u).toNat, den)
  let u := if 2 ^ 53 ≤ (scaled u).1 / (scaled u).2 then u + 1 else u
  let n := (scaled u).1
  let d := (scaled u).2
  let up := d < 2 * (n % d) ∨ (d = 2 * (n % d) ∧ n / d % 2 = 1)
  let q := n / d + (if up then 1 else 0)
  if q < 2 ^ 52 then ⟨UInt64.ofNat (sign + q)⟩
  else
    let bits := (u + 1075).toNat * 2 ^ 52 + (q - 2 ^ 52)
    ⟨UInt64.ofNat (sign + min bits (2047 * 2 ^ 52))⟩

/-- `m * 10 ^ e`, which is infinite from `10 ^ 310` on. -/
def F64.ofDecimal (negative : Bool) (m : Nat) (e : Int) : F64 :=
  if m = 0 then .ofMagnitude negative 0
  else if 310 < e then F64.ofNatural negative (2 ^ 1024)
  else if 0 ≤ e then F64.ofNatural negative (m * 10 ^ e.toNat)
  else F64.ofRatio negative m (10 ^ (-e).toNat)

/-- `n.fract() == 0.0`. -/
def F64.fractIsZero (x : F64) : Bool :=
  let e := x.magnitude / 2 ^ 52
  x.isFinite &&
    if e = 0 then x.magnitude = 0
    else if 1075 ≤ e then true
    else (2 ^ 52 + x.magnitude % 2 ^ 52) % 2 ^ (1075 - e) = 0

/-- `n as u64`, of a double that is not negative. -/
def F64.asU64 (x : F64) : Nat := min x.toNat (2 ^ 64 - 1)

namespace PredicateParse

def digitsValue (digits : List Char) : Nat := digits.foldl (fun n c => 10 * n + (c.toNat - 48)) 0

/-- The exponent, with its marker. -/
def parseExponent : List Char → Option Int
  | [] => some 0
  | c :: rest =>
    let digits := if rest.head? = some '-' ∨ rest.head? = some '+' then rest.tail else rest
    if (c = 'e' ∨ c = 'E') ∧ digits ≠ [] ∧ digits.all Char.isDigit = true then
      some (if rest.head? = some '-' then -(digitsValue digits : Int) else digitsValue digits)
    else none

/-- The fraction after the point, if there is one, and what follows. -/
def splitFraction : List Char → List Char × List Char
  | '.' :: rest => (rest.takeWhile Char.isDigit, rest.dropWhile Char.isDigit)
  | rest => ([], rest)

/-- `str::parse::<f64>`, of a text that begins with a digit, or with `-` and a digit. -/
def parseF64 (s : List Char) : Option F64 :=
  let negative := s.head? = some '-'
  let unsigned := if negative then s.tail else s
  let whole := unsigned.takeWhile Char.isDigit
  let fraction := splitFraction (unsigned.dropWhile Char.isDigit)
  (parseExponent fraction.2).map fun e =>
    F64.ofDecimal negative (digitsValue (whole ++ fraction.1)) (e - fraction.1.length)

/-! ### Tokens -/

inductive Tok where
  | ident (s : List Char)
  | str (s : List Char)
  | num (n : F64)
  | eq
  | ne
  | lt
  | le
  | gt
  | ge
  | lparen
  | rparen
  | dot
  | comma
  | true
  | false
  | null
  | and
  | or
  | not
  | exists
deriving DecidableEq

inductive ParseError where
  | unterminated
  | badNumber (s : List Char)
  | unexpectedCharacter (c : Char) (offset : Nat)
  -- a slice that does not end between characters
  | panicked
  | expectedRParen
  | expectedLParenAfterExists
  | expectedRParenAfterExists
  | expectedOperator
  | expectedComparison (other : Tok)
  | unexpectedToken (other : Tok)
  | unexpectedEnd
  | expectedIdentifier
  | expectedSegment
  | expectedLiteralGot (other : Tok)
  | expectedLiteral
  | trailing (pos : Nat)
deriving DecidableEq

def ParseError.message (debug : Tok → String) : ParseError → String
  | .unterminated => "unterminated string literal"
  | .badNumber s => "bad number `" ++ String.ofList s ++ "`: invalid float literal"
  | .unexpectedCharacter c offset => "unexpected character `" ++ toString c ++ "` at offset " ++ toString offset
  | .panicked => "byte index is not a char boundary"
  | .expectedRParen => "expected `)`"
  | .expectedLParenAfterExists => "expected `(` after EXISTS"
  | .expectedRParenAfterExists => "expected `)` after EXISTS field"
  | .expectedOperator => "expected operator after field"
  | .expectedComparison other => "expected comparison operator, got " ++ debug other
  | .unexpectedToken other => "unexpected token " ++ debug other
  | .unexpectedEnd => "unexpected end of expression"
  | .expectedIdentifier => "expected identifier"
  | .expectedSegment => "expected identifier or index after `.`"
  | .expectedLiteralGot other => "expected literal, got " ++ debug other
  | .expectedLiteral => "expected literal"
  | .trailing pos => "trailing tokens after expression at position " ++ toString pos

/-! ### The lexer -/

/-- A byte above ASCII that is a letter when taken for a character. -/
def latin1Alphabetic (b : Nat) : Bool :=
  b = 0xaa || b = 0xb5 || b = 0xba || (0xc0 ≤ b && b ≠ 0xd7 && b ≠ 0xf7)

def latin1Alphanumeric (b : Nat) : Bool :=
  latin1Alphabetic b || b = 0xb2 || b = 0xb3 || b = 0xb9 || (0xbc ≤ b && b ≤ 0xbe)

/-- `is_whitespace` of the first byte. -/
def isSpace (c : Char) : Bool := c.toNat = 32 || (9 ≤ c.toNat && c.toNat ≤ 13)

/-- The first byte begins a word. -/
def startsWord (c : Char) : Bool :=
  if c.toNat < 128 then c.isAlpha || c = '_'
  else ((String.utf8EncodeChar c).head?).any fun b => latin1Alphabetic b.toNat

/-- All bytes continue a word. -/
def isWordChar (c : Char) : Bool :=
  if c.toNat < 128 then c.isAlphanum || c = '_'
  else (String.utf8EncodeChar c).all fun b => latin1Alphanumeric b.toNat

/-- Some of the bytes continue a word, and the next one does not. -/
def cutsWord (c : Char) : Bool := 128 ≤ c.toNat && startsWord c && !isWordChar c

def isNumberChar (c : Char) : Bool := c.isDigit || c = '.' || c = 'e' || c = 'E' || c = '+' || c = '-'

/-- The text of the literal up to its closing quote, and what follows. -/
def scanString (quote : Char) : List Char → Option (List Char × List Char)
  | [] => none
  | c :: rest =>
    if c = quote then some ([], rest)
    else if c = '\\' then
      match rest with
      | [] => none
      | d :: rest => (scanString quote rest).map fun s => (c :: d :: s.1, s.2)
    else (scanString quote rest).map fun s => (c :: s.1, s.2)

/-- `raw.replace` of an escaped character by the character. -/
def replaceEscaped (d : Char) : List Char → List Char
  | [] => []
  | [c] => [c]
  | b :: c :: rest =>
    if b = '\\' ∧ c = d then d :: replaceEscaped d rest else b :: replaceEscaped d (c :: rest)

def unescape (raw : List Char) : List Char := replaceEscaped '\\' (replaceEscaped '\'' (replaceEscaped '"' raw))

def wordTok (word : List Char) : Tok :=
  let upper := String.ofList (word.map Char.toUpper)
  if upper = "AND" then .and
  else if upper = "OR" then .or
  else if upper = "NOT" then .not
  else if upper = "TRUE" then .true
  else if upper = "FALSE" then .false
  else if upper = "NULL" then .null
  else if upper = "EXISTS" then .exists
  else .ident word

/-- The bytes of a text. -/
def byteLength (s : List Char) : Nat := (s.map fun c => (String.utf8EncodeChar c).length).sum

/-- What is read at the character `c`: a token, or none for a space, and what follows. -/
def readTok (total : Nat) (c : Char) (rest : List Char) : Except ParseError (Option Tok × List Char) :=
  if isSpace c then .ok (none, rest)
  else if c = '(' then .ok (some .lparen, rest)
  else if c = ')' then .ok (some .rparen, rest)
  else if c = '.' then .ok (some .dot, rest)
  else if c = ',' then .ok (some .comma, rest)
  else if c = '=' ∧ rest.head? = some '=' then .ok (some .eq, rest.tail)
  else if c = '!' ∧ rest.head? = some '=' then .ok (some .ne, rest.tail)
  else if c = '<' then if rest.head? = some '=' then .ok (some .le, rest.tail) else .ok (some .lt, rest)
  else if c = '>' then if rest.head? = some '=' then .ok (some .ge, rest.tail) else .ok (some .gt, rest)
  else if c = '"' ∨ c = '\'' then
    match scanString c rest with
    | none => .error .unterminated
    | some (raw, rest) => .ok (some (.str (unescape raw)), rest)
  else if c.isDigit = true ∨ c = '-' ∧ rest.head?.any Char.isDigit = true then
    match parseF64 (c :: rest.takeWhile isNumberChar) with
    | none => .error (.badNumber (c :: rest.takeWhile isNumberChar))
    | some n => .ok (some (.num n), rest.dropWhile isNumberChar)
  else if startsWord c then
    if cutsWord c || (rest.dropWhile isWordChar).head?.any cutsWord then .error .panicked
    else .ok (some (wordTok (c :: rest.takeWhile isWordChar)), rest.dropWhile isWordChar)
  else .error (.unexpectedCharacter (Char.ofNat (((String.utf8EncodeChar c).head?.map (·.toNat)).getD 0))
    (total - byteLength (c :: rest)))

def tokenizeFrom (total : Nat) : Nat → List Char → Except ParseError (List Tok)
  | _, [] => .ok []
  | 0, _ :: _ => .ok []
  | fuel + 1, c :: rest => do
    let (t, rest) ← readTok total c rest
    let ts ← tokenizeFrom total fuel rest
    return t.toList ++ ts

/-- Every token has a character at least. -/
def tokenize (src : List Char) : Except ParseError (List Tok) := tokenizeFrom (byteLength src) src.length src

/-! ### The parser

Every function returns what it has parsed and the tokens that are left. -/

def fieldTail (path : List Char) : List Tok → Except ParseError (List Char × List Tok)
  | .dot :: .ident s :: ts => fieldTail (path ++ '.' :: s) ts
  | .dot :: .num n :: ts =>
    if F64.fractIsZero n && F64.le ⟨0⟩ n then fieldTail (path ++ '.' :: (Nat.repr (F64.asU64 n)).toList) ts
    else .error .expectedSegment
  | .dot :: _ => .error .expectedSegment
  | ts => .ok (path, ts)

def parseField : List Tok → Except ParseError (List Char × List Tok)
  | .ident s :: ts => fieldTail s ts
  | _ => .error .expectedIdentifier

def parseLiteral : List Tok → Except ParseError (Value × List Tok)
  | .str s :: ts => .ok (.string (String.ofList s), ts)
  | .num n :: ts => .ok (if n.isFinite then .number (.float n) else .null, ts)
  | .true :: ts => .ok (.bool Bool.true, ts)
  | .false :: ts => .ok (.bool Bool.false, ts)
  | .null :: ts => .ok (.null, ts)
  | other :: _ => .error (.expectedLiteralGot other)
  | [] => .error .expectedLiteral

def comparison (field : List Char) (value : Value) : Tok → Except ParseError Predicate
  | .eq => .ok (.eq field value)
  | .ne => .ok (.ne field value)
  | .lt => .ok (.lt field value)
  | .le => .ok (.le field value)
  | .gt => .ok (.gt field value)
  | .ge => .ok (.ge field value)
  | other => .error (.expectedComparison other)

def parseComparison (ts : List Tok) : Except ParseError (Predicate × List Tok) := do
  let (field, ts) ← parseField ts
  match ts with
  | [] => .error .expectedOperator
  | op :: ts =>
    let (value, ts) ← parseLiteral ts
    let p ← comparison field value op
    return (p, ts)

def parseExists : List Tok → Except ParseError (Predicate × List Tok)
  | .lparen :: ts => do
    let (field, ts) ← parseField ts
    match ts with
    | .rparen :: ts => return (.exists field, ts)
    | _ => .error .expectedRParenAfterExists
  | _ => .error .expectedLParenAfterExists

def pushOr (left right : Predicate) : Predicate :=
  match left with
  | .or xs => .or (xs ++ [right])
  | other => .or [other, right]

def pushAnd (left right : Predicate) : Predicate :=
  match left with
  | .and xs => .and (xs ++ [right])
  | other => .and [other, right]

mutual

def parseOr : Nat → List Tok → Except ParseError (Predicate × List Tok)
  | 0, _ => .error .unexpectedEnd
  | fuel + 1, ts => do
    let (left, ts) ← parseAnd fuel ts
    orLoop fuel left ts

def orLoop : Nat → Predicate → List Tok → Except ParseError (Predicate × List Tok)
  | 0, _, _ => .error .unexpectedEnd
  | fuel + 1, left, ts =>
    match ts with
    | .or :: ts => do
      let (right, ts) ← parseAnd fuel ts
      orLoop fuel (pushOr left right) ts
    | ts => .ok (left, ts)

def parseAnd : Nat → List Tok → Except ParseError (Predicate × List Tok)
  | 0, _ => .error .unexpectedEnd
  | fuel + 1, ts => do
    let (left, ts) ← parseNot fuel ts
    andLoop fuel left ts

def andLoop : Nat → Predicate → List Tok → Except ParseError (Predicate × List Tok)
  | 0, _, _ => .error .unexpectedEnd
  | fuel + 1, left, ts =>
    match ts with
    | .and :: ts => do
      let (right, ts) ← parseNot fuel ts
      andLoop fuel (pushAnd left right) ts
    | ts => .ok (left, ts)

def parseNot : Nat → List Tok → Except ParseError (Predicate × List Tok)
  | 0, _ => .error .unexpectedEnd
  | fuel + 1, ts =>
    match ts with
    | .not :: ts => do
      let (inner, ts) ← parseNot fuel ts
      return (.not inner, ts)
    | ts => parseAtom fuel ts

def parseAtom : Nat → List Tok → Except ParseError (Predicate × List Tok)
  | 0, _ => .error .unexpectedEnd
  | fuel + 1, ts =>
    match ts with
    | .lparen :: ts => do
      let (inner, ts) ← parseOr fuel ts
      match ts with
      | .rparen :: ts => return (inner, ts)
      | _ => .error .expectedRParen
    | .exists :: ts => parseExists ts
    | .true :: ts => .ok (.true, ts)
    | .false :: ts => .ok (.false, ts)
    | .ident s :: ts => parseComparison (.ident s :: ts)
    | other :: _ => .error (.unexpectedToken other)
    | [] => .error .unexpectedEnd

end

/-- Between two tokens that are taken there are at most six calls. -/
def parse (src : List Char) : Except ParseError Predicate := do
  let toks ← tokenize src
  let (p, rest) ← parseOr (6 * toks.length + 6) toks
  if rest.isEmpty then return p else .error (.trailing (toks.length - rest.length))

end PredicateParse

end ActantDb
