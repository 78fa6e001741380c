import ActantDb.Core.Json
import ActantDb.Lib.Sha256

/-!
# Hashing and the crates behind it

What the code takes from third-party crates is collected in one structure, `Crates`, so that every result says what it rests on: results that mention no hypothesis on a field hold for every implementation of it. Over it stand the hashing helpers: the hex digest, the canonical JSON text and the chain hash.
-/

namespace ActantDb

/-- The functions the code calls and does not define. -/
structure Crates where
  /-- `sha2::Sha256`, as bytes. -/
  sha256 : List UInt8 → List UInt8
  /-- How `serde_json` prints a floating-point number. -/
  formatF64 : F64 → String
  /-- `serde_json::from_str`, an error being `none`. -/
  fromStr : String → Option Value
  /-- `regex::Regex::new` and, when the pattern compiles, `is_match`. -/
  regex : String → Option (String → Bool)

/-- The crates for sample runs. No run parses JSON text or prints a float, and the patterns of the policy compile and match none of the arguments. -/
def Crates.sample : Crates where
  sha256 := Sha256.digest
  formatF64 _ := "0.5"
  fromStr _ := none
  regex _ := some fun _ => false

/-! ### Text -/

/-- `char::is_whitespace`: the Unicode `White_Space` property. -/
def isWhitespace (c : Char) : Bool :=
  let n := c.toNat
  (9 ≤ n && n ≤ 13) || n == 0x20 || n == 0x85 || n == 0xa0 || n == 0x1680 ||
    (0x2000 ≤ n && n ≤ 0x200a) || n == 0x2028 || n == 0x2029 || n == 0x202f || n == 0x205f ||
    n == 0x3000

/-- `str::trim`. -/
def trim (s : List Char) : List Char :=
  ((s.dropWhile isWhitespace).reverse.dropWhile isWhitespace).reverse

/-- The same, of a string. -/
def trimmed (s : String) : String := String.ofList (trim s.toList)

/-- `str::as_bytes`. -/
def asBytes (s : String) : List UInt8 := s.toByteArray.data.toList

/-- `hex::encode`. -/
def hexEncode (bytes : List UInt8) : String :=
  String.ofList (bytes.flatMap fun b => [Value.hexDigit (b.toNat / 16), Value.hexDigit (b.toNat % 16)])

variable (X : Crates)

def sha256Hex (bytes : List UInt8) : String := hexEncode (X.sha256 bytes)

/-- `Value::to_string`. -/
def Value.toText (v : Value) : String := String.ofList (v.print X.formatF64)

/-- Keys sorted, no whitespace. -/
def canonicalJson (v : Value) : String := v.canonicalize.toText X

/-- `sha256_hex(format!("{prev}:{payload_hash}"))`. -/
def chainHash (prev payloadHash : String) : String :=
  sha256Hex X (asBytes (prev ++ ":" ++ payloadHash))

/-- `"0".repeat(64)`, what the first event of a session is chained from. -/
def zeros : String := String.ofList (List.replicate 64 '0')

end ActantDb
