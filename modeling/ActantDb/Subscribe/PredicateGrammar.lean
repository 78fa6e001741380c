import ActantDb.Subscribe.PredicateParse

/-!
# The grammar of predicates

What the parser is for: the expressions of its grammar, what they mean of a JSON value, and the texts that they are printed as. The shape of an expression says how tightly its operators bind (`Expr.Grammatical`); its text adds no parentheses.
-/

namespace ActantDb

namespace PredicateParse

/-! ### Paths and literals -/

def keywords : List String := ["AND", "OR", "NOT", "TRUE", "FALSE", "NULL", "EXISTS"]

def isWordLetter (c : Char) : Bool := c.isAlphanum || c = '_'

def isIdent : List Char → Bool
  | [] => false
  | c :: rest => (c.isAlpha || c = '_') && rest.all isWordLetter &&
      !keywords.contains (String.ofList ((c :: rest).map Char.toUpper))

def isDigits (s : List Char) : Bool := !s.isEmpty && s.all Char.isDigit

inductive Segment where
  | name (s : List Char)
  | index (digits : List Char)

def Segment.text : Segment → List Char
  | .name s => s
  | .index digits => digits

def Segment.valid : Segment → Bool
  | .name s => isIdent s
  | .index digits => isDigits digits

structure Path where
  first : List Char
  rest : List Segment

namespace Path

variable (p : Path)

def valid : Bool := isIdent p.first && p.rest.all (·.valid)

def segments : List (List Char) := p.first :: p.rest.map Segment.text

def text : List Char := p.first ++ p.rest.flatMap fun s => '.' :: s.text

def find (v : Value) : Option Value := resolveSegments p.segments v

end Path

structure Exponent where
  marker : Char
  sign : List Char
  digits : List Char

def Exponent.valid (e : Exponent) : Bool :=
  (e.marker = 'e' || e.marker = 'E') && (e.sign = [] || e.sign = ['+'] || e.sign = ['-']) && isDigits e.digits

def Exponent.text (e : Exponent) : List Char := e.marker :: (e.sign ++ e.digits)

structure Numeral where
  negative : Bool
  whole : List Char
  fraction : Option (List Char)
  exponent : Option Exponent

namespace Numeral

variable (n : Numeral)

def valid : Bool := isDigits n.whole && n.fraction.all isDigits && n.exponent.all (·.valid)

def fractionText : List Char := n.fraction.elim [] fun digits => '.' :: digits

def exponentText : List Char := n.exponent.elim [] Exponent.text

def unsigned : List Char := n.whole ++ (n.fractionText ++ n.exponentText)

def text : List Char := if n.negative then '-' :: n.unsigned else n.unsigned

/-- The double nearest to the number. -/
def double : F64 :=
  let scale : Int := match n.exponent with
    | none => 0
    | some e => if e.sign = ['-'] then -(digitsValue e.digits : Int) else digitsValue e.digits
  let fraction := n.fraction.getD []
  F64.ofDecimal n.negative (digitsValue (n.whole ++ fraction)) (scale - fraction.length)

/-- The integer that the numeral is read as in a JSON text, if it is one that fits. -/
def integer? : Option Number :=
  match n.fraction, n.exponent with
  | none, none =>
    let m := digitsValue n.whole
    if n.negative then
      if 0 < m ∧ m ≤ 2 ^ 63 then some (.negInt (Int64.ofInt (-m))) else none
    else if m < 2 ^ 64 then some (.posInt (UInt64.ofNat m)) else none
  | _, _ => none

/-- The number that the numeral is in a JSON text. -/
def value : Number := n.integer?.getD (.float n.double)

end Numeral

inductive Literal where
  | string (quote : Char) (raw : List Char)
  | number (n : Numeral)
  | bool (b : Bool)
  | null

/-- An escaped quote or backslash stands for itself, any other escape for its two characters. -/
def decode : List Char → List Char
  | [] => []
  | [c] => [c]
  | b :: c :: rest =>
    if b = '\\' then
      if c = '"' ∨ c = '\'' ∨ c = '\\' then c :: decode rest else b :: c :: decode rest
    else b :: decode (c :: rest)

/-- No quote that is not escaped, and no escape without a character. -/
def closed (quote : Char) : List Char → Bool
  | [] => true
  | c :: rest =>
    if c = quote then false
    else if c = '\\' then
      match rest with
      | [] => false
      | _ :: rest => closed quote rest
    else closed quote rest

def Literal.valid : Literal → Bool
  | .string quote raw => (quote = '"' || quote = '\'') && closed quote raw
  | .number n => n.valid
  | .bool _ | .null => true

def Literal.value : Literal → Value
  | .string _ raw => .string (String.ofList (decode raw))
  | .number n => .number n.value
  | .bool b => .bool b
  | .null => .null

/-! ### Expressions -/

inductive Op where
  | eq
  | ne
  | lt
  | le
  | gt
  | ge
deriving DecidableEq

def Op.holds (o : Op) (found : Option Value) (lit : Value) : Bool :=
  match o with
  | .eq => found.any (·.eq lit)
  | .ne => found.all fun v => !v.eq lit
  | .lt => cmp found lit (· == .lt)
  | .le => cmp found lit (· != .gt)
  | .gt => cmp found lit (· == .gt)
  | .ge => cmp found lit (· != .lt)

inductive Expr where
  | or (a b : Expr)
  | and (a b : Expr)
  | not (a : Expr)
  | paren (a : Expr)
  | compare (p : Path) (o : Op) (l : Literal)
  | exists (p : Path)

namespace Expr

def holds (v : Value) : Expr → Bool
  | or a b => a.holds v || b.holds v
  | and a b => a.holds v && b.holds v
  | not a => !a.holds v
  | paren a => a.holds v
  | compare p o l => o.holds (p.find v) l.value
  | .exists p => (p.find v).isSome

/-- How tightly the expression binds. -/
def level : Expr → Nat
  | or _ _ => 0
  | and _ _ => 1
  | _ => 2

/-- An expression of the grammar. -/
def Grammatical : Expr → Prop
  | or a b => a.Grammatical ∧ b.Grammatical ∧ 1 ≤ a.level
  | and a b => a.Grammatical ∧ b.Grammatical ∧ 2 ≤ a.level ∧ 1 ≤ b.level
  | not a => a.Grammatical ∧ 2 ≤ a.level
  | paren a => a.Grammatical
  | compare p _ l => p.valid = true ∧ l.valid = true
  | .exists p => p.valid = true

end Expr

/-! ### Texts -/

inductive Keyword where
  | and
  | or
  | not
  | exists
  | true
  | false
  | null

def Keyword.text : Keyword → String
  | .and => "AND"
  | .or => "OR"
  | .not => "NOT"
  | .exists => "EXISTS"
  | .true => "TRUE"
  | .false => "FALSE"
  | .null => "NULL"

def Op.text : Op → List Char
  | .eq => ['=', '=']
  | .ne => ['!', '=']
  | .lt => ['<']
  | .le => ['<', '=']
  | .gt => ['>']
  | .ge => ['>', '=']

inductive Lexeme where
  | lparen
  | rparen
  | op (o : Op)
  | keyword (k : Keyword)
  | path (p : Path)
  | string (quote : Char) (raw : List Char)
  | number (n : Numeral)

def Literal.lexeme : Literal → Lexeme
  | .string quote raw => .string quote raw
  | .number n => .number n
  | .bool b => .keyword (if b then .true else .false)
  | .null => .keyword .null

def Expr.lexemes : Expr → List Lexeme
  | .or a b => a.lexemes ++ .keyword .or :: b.lexemes
  | .and a b => a.lexemes ++ .keyword .and :: b.lexemes
  | .not a => .keyword .not :: a.lexemes
  | .paren a => .lparen :: (a.lexemes ++ [.rparen])
  | .compare p o l => [.path p, .op o, l.lexeme]
  | .exists p => [.keyword .exists, .lparen, .path p, .rparen]

namespace Lexeme

/-- The texts of a lexeme: a keyword is written in any letter case. -/
def Spells : Lexeme → List Char → Prop
  | lparen, t => t = ['(']
  | rparen, t => t = [')']
  | op o, t => t = o.text
  | keyword k, t => t.map Char.toUpper = k.text.toList
  | path p, t => t = p.text
  | string quote raw, t => t = quote :: (raw ++ [quote])
  | number n, t => t = n.text

/-- A character that would be read on with a word. -/
def runsOn (c : Char) : Bool := isWordLetter c || 128 ≤ c.toNat

/-- After the last segment of a path, an index or a name. -/
def apartAfter (segments : List Segment) (next : Option Char) : Bool :=
  match segments.getLast? with
  | some (.index _) => next.all fun c => !isNumberChar c
  | _ => next.all fun c => !runsOn c && c ≠ '.'

/-- The next character does not run on. -/
def Apart (next : Option Char) : Lexeme → Bool
  | op .lt | op .gt => next.all (· ≠ '=')
  | keyword _ => next.all fun c => !runsOn c
  | path p => apartAfter p.rest next
  | number _ => next.all fun c => !isNumberChar c
  | _ => true

end Lexeme

/-- The lexemes, with spaces between them where they would run on and where one likes. -/
inductive Printed : List Lexeme → List Char → Prop
  | nil {spaces : List Char} (h : spaces.all isSpace = true) : Printed [] spaces
  | cons {spaces text rest : List Char} {lexeme : Lexeme} {lexemes : List Lexeme}
    (hspaces : spaces.all isSpace = true) (htext : lexeme.Spells text) (hapart : lexeme.Apart rest.head? = true)
    (hrest : Printed lexemes rest) : Printed (lexeme :: lexemes) (spaces ++ (text ++ rest))

/-- The text is parsed, to a predicate that means what the expression does. -/
def Reads (e : Expr) (text : List Char) : Prop :=
  ∃ p, parse text = .ok p ∧ ∀ v, p.evaluate v = e.holds v

/-! ### What is read as it is written -/

/-- The index comes back from the double that it is read as. -/
def indexKept (digits : List Char) : Bool :=
  (parseF64 digits).any fun n => F64.fractIsZero n && F64.le ⟨0⟩ n && (Nat.repr (F64.asU64 n)).toList = digits

def Segment.isName : Segment → Bool
  | .name _ => true
  | .index _ => false

def Segment.kept : Segment → Bool
  | .name _ => true
  | .index digits => indexKept digits

/-- An index is kept, and only the last segment is one. -/
def Path.plain (p : Path) : Bool := p.rest.dropLast.all (·.isName) && p.rest.all (·.kept)

/-- A number is finite, and is not compared for equality as an integer. -/
def Literal.plain (o : Op) : Literal → Bool
  | .number n => n.double.isFinite && (n.integer?.isNone || (o ≠ .eq && o ≠ .ne))
  | _ => true

def Expr.Plain : Expr → Prop
  | .or a b => a.Plain ∧ b.Plain
  | .and a b => a.Plain ∧ b.Plain
  | .not a => a.Plain
  | .paren a => a.Plain
  | .compare p o l => p.plain = true ∧ l.plain o = true
  | .exists p => p.plain = true

end PredicateParse

end ActantDb
