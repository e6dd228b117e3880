import Trellis.Document.Fault
import Trellis.Document.Node
import Trellis.Expr.Token
import Trellis.Source.Bracket
import Trellis.Text.Utf8

/-!
# `Trellis.Document.Literal`: quoted texts and interpolation

Fixed text holds expressions between `#` or `!` and a pair of braces. The brace that
closes one is found by counting braces outside quotes. A backslash before the opening
sign makes it plain text.
-/

set_option autoImplicit false

namespace Trellis

open Text

/-- Reads on behind an opening quote. The whole text has `size` bytes, of which `offset` were
read behind the quote. Only as the last byte of all does a quote close the text. -/
def closedText? (quote : Char) (size offset : Nat) : List Char → Option (List Char)
  | [] => none
  | '\\' :: c :: cs =>
    (closedText? quote size (offset + 1 + c.utf8Size) cs).map (Expr.unescape c :: ·)
  | ['\\'] => none
  | c :: cs =>
    if c = quote then if offset + 2 = size then some [] else none
    else (closedText? quote size (offset + c.utf8Size) cs).map (c :: ·)

/-- Reads a text that stands in quotes as a whole, in the notation of expressions. -/
def quotedText? (cs : List Char) : Option (List Char) :=
  match cs with
  | [] => none
  | q :: rest => if Source.isQuote q then closedText? q (byteLength cs) 0 rest else none

/-- Compiles an expression of a template. -/
def compileIn (cs : List Char) : Except ParseFault Expression :=
  (Expression.compile (String.ofList cs)).mapError .badExpression

/-- Splits a text before the brace that closes an interpolation. The brace itself is
dropped. -/
def splitAtBrace? (n : Source.Nesting) : List Char → Option (List Char × List Char)
  | [] => none
  | c :: cs =>
    let go (n : Source.Nesting) : Option (List Char × List Char) :=
      (splitAtBrace? n cs).map fun (inner, rest) => (c :: inner, rest)
    match n.quote with
    | some q => go (n.insideQuote q c)
    | none =>
      if Source.isQuote c then go { n with quote := some c }
      else if c == '{' then go { n with depth := n.depth + 1 }
      else if c == '}' then
        if n.depth == 0 then some ([], cs) else go { n with depth := n.depth - 1 }
      else go n

theorem length_of_splitAtBrace? {n : Source.Nesting} {cs inner rest : List Char}
    (h : splitAtBrace? n cs = some (inner, rest)) : rest.length < cs.length := by
  induction cs generalizing n inner with
  | nil => cases h
  | cons c cs ih =>
    -- The rest is either what follows this character or the rest of a later split.
    have later : ∀ m, ((splitAtBrace? m cs).map fun (i, r) => (c :: i, r)) = some (inner, rest) →
        rest.length < (c :: cs).length := by
      intro m hm
      obtain ⟨⟨i, r⟩, hs, he⟩ := Option.map_eq_some_iff.1 hm
      cases he
      exact Nat.lt_succ_of_lt (ih hs)
    unfold splitAtBrace? at h
    dsimp only at h
    split at h
    · exact later _ h
    · split at h
      · exact later _ h
      · split at h
        · exact later _ h
        · split at h
          · split at h
            · cases h; simp
            · exact later _ h
          · exact later _ h

/-- The span of fixed text, last character first, if there is any. -/
def literalSpan (text : List Char) : List Span :=
  if text.isEmpty then [] else [.literal (String.ofList text.reverse)]

/-- Reads the spans of a text. `text` is the fixed text under way, last character
first. -/
def interpolateFrom (text : List Char) (cs : List Char) : Except ParseFault (List Span) :=
  match cs with
  | [] => .ok (literalSpan text)
  | c :: rest =>
    if startsWith ['\\', '#', '{'] (c :: rest) || startsWith ['\\', '!', '{'] (c :: rest) then
      interpolateFrom ((rest.take 2).reverse ++ text) (rest.drop 2)
    else if (c == '#' || c == '!') && headIs (· == '{') rest then
      match h : splitAtBrace? .outside (rest.drop 1) with
      | none => .error .openInterpolation
      | some (inner, after) =>
        have : after.length < rest.length := by
          have := length_of_splitAtBrace? h
          rw [List.length_drop] at this
          omega
        match compileIn (trim inner) with
        | .error e => .error e
        | .ok e =>
          match interpolateFrom [] after with
          | .error e => .error e
          | .ok spans =>
            .ok (literalSpan text ++ (if c == '!' then .raw e else .escaped e) :: spans)
    else interpolateFrom (c :: text) rest
termination_by cs.length
decreasing_by
  all_goals
    simp only [List.length_cons, List.length_drop]
    omega

/-- The spans of a text. The empty text has one span. -/
def interpolate (s : String) : Except ParseFault (List Span) :=
  (interpolateFrom [] s.toList).map fun spans =>
    if spans.isEmpty then [.literal ""] else spans

end Trellis
