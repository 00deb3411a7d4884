import Rv32Asm.Json.Reader

/-!
# Passing over JSON values

A value whose contents do not matter is only checked for its grammar: numbers of any magnitude,
surrogates that stand alone and any depth of nesting are accepted.
-/

namespace Rv32Asm.Json

/-- Passes over one character of a string, or over its closing quote; tells which. -/
def skipStringStep : List Char → Except Fault (Bool × List Char)
  | '\\' :: 'u' :: cs => (fun (_, rest) => (true, rest)) <$> codeUnit cs
  | cs => (fun (c, rest) => (c.isSome, rest)) <$> stringStep cs

/-- Passes over the rest of a string, with a text at least as long for fuel. -/
def skipStringLoop : List Char → Reader Unit
  | [], _ => .error .truncated
  | _ :: fuel, cs =>
    match skipStringStep cs with
    | .error e => .error e
    | .ok (false, rest) => .ok ((), rest)
    | .ok (true, rest) => skipStringLoop fuel rest

/-- Passes over a value that is neither an array nor an object. -/
def skipScalar : Reader Unit
  | '"' :: cs => skipStringLoop cs cs
  | c :: cs =>
    if c = '-' ∨ c.isDigit then (fun (_, rest) => ((), rest)) <$> scanNumber (c :: cs)
    else (fun (_, rest) => ((), rest)) <$> scalar (c :: cs)
  | [] => .error .truncated

/-- Passes over the name of a member and the colon behind it, and then over its value. -/
def skipMember (value : Reader Unit) : Reader Unit := fun cs =>
  match skipSpace cs with
  | [] => .error .truncated
  | '"' :: cs => do
    let (_, rest) ← skipStringLoop cs cs
    match skipSpace rest with
    | [] => .error .truncated
    | ':' :: rest => value rest
    | _ => .error .malformed
  | _ => .error .malformed

/-- Passes over a value in which arrays and objects nest at most `depth` deep. -/
def skipNested : Nat → Reader Unit
  | 0 => fun _ => .error .truncated
  | depth + 1 => fun cs =>
    match skipSpace cs with
    | '[' :: cs => (fun (_, rest) => ((), rest)) <$> items ']' (skipNested depth) cs
    | '\x7b' :: cs =>
      (fun (_, rest) => ((), rest)) <$> items '\x7d' (skipMember (skipNested depth)) cs
    | cs => skipScalar cs

/-- Passes over a value. A text cannot nest deeper than it is long. -/
def skipValue : Reader Unit := fun cs => skipNested (cs.length + 1) cs

end Rv32Asm.Json
