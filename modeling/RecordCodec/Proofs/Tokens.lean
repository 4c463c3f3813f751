import RecordCodec.TypeExpr.Parser

set_option autoImplicit false

/-!
# The tokens of a text

A text is read from its start, one blank or one token at a time. What is said of all tokens of a
text follows from what the lexer can find at one place.
-/
namespace RecordCodec.TypeExpr

variable {fuel offset size : Nat} {c : Char} {s rest : List Char} {token : Token}
  {lexemes : List Lexeme}

theorem lexFrom_of_isSpace (isSpace : Json.isSpace c = true) :
    lexFrom (fuel + 1) offset (c :: s) = lexFrom fuel (offset + 1) s := by
  rw [lexFrom, if_pos isSpace]

theorem lexFrom_of_token (noSpace : Json.isSpace c = false)
    (next : nextToken (c :: s) = .ok (token, size, rest)) :
    lexFrom (fuel + 1) offset (c :: s) =
      (lexFrom fuel (offset + size) rest).map fun lexed => lexed.map (⟨token, offset⟩ :: ·) := by
  rw [lexFrom, if_neg (by simp [noSpace]), next]

/-- A text that is read to its end goes on behind its first token. -/
theorem exists_of_lexFrom_token (noSpace : Json.isSpace c = false)
    (next : nextToken (c :: s) = .ok (token, size, rest))
    (lexed : lexFrom fuel offset (c :: s) = some (.ok lexemes)) :
    ∃ fuel more, lexFrom fuel (offset + size) rest = some (.ok more) ∧
      lexemes = ⟨token, offset⟩ :: more := by
  cases fuel with
  | zero => cases lexed
  | succ fuel =>
    rw [lexFrom_of_token noSpace next] at lexed
    obtain ⟨read, isRead, same⟩ := Option.map_eq_some_iff.1 lexed
    cases read with
    | error e => cases same
    | ok more =>
      cases same
      exact ⟨fuel, more, isRead, rfl⟩

theorem parse_of_lex {text : String} (lexed : lex text = some (.ok lexemes)) :
    parse text = some (parseAll text.utf8ByteSize lexemes) := by
  rw [parse, lexed]
  rfl

theorem exists_of_parse {text : String} {ty : TypeExpr} (h : parse text = some (.ok ty)) :
    ∃ ts, lex text = some (.ok ts) ∧ parseAll text.utf8ByteSize ts = .ok ty := by
  obtain ⟨read, lexed, same⟩ := Option.map_eq_some_iff.1 h
  cases read with
  | error e => cases same
  | ok ts => exact ⟨ts, lexed, same⟩

theorem exists_nextToken_of_mem (lexed : lexFrom fuel offset s = some (.ok lexemes))
    {lexeme : Lexeme} (mem : lexeme ∈ lexemes) :
    ∃ from_ size rest, nextToken from_ = .ok (lexeme.token, size, rest) := by
  induction fuel generalizing offset s lexemes with
  | zero =>
    cases s with
    | nil =>
      cases lexed
      cases mem
    | cons c rest => cases lexed
  | succ fuel ih =>
    cases s with
    | nil =>
      cases lexed
      cases mem
    | cons c rest =>
      by_cases isSpace : Json.isSpace c = true
      · rw [lexFrom_of_isSpace isSpace] at lexed
        exact ih lexed mem
      · rw [Bool.not_eq_true] at isSpace
        cases next : nextToken (c :: rest) with
        | error flaw =>
          rw [lexFrom, if_neg (by simp [isSpace]), next] at lexed
          cases lexed
        | ok found =>
          obtain ⟨token, size, after⟩ := found
          rw [lexFrom_of_token isSpace next] at lexed
          obtain ⟨read, isRead, same⟩ := Option.map_eq_some_iff.1 lexed
          cases read with
          | error e => cases same
          | ok more =>
            cases same
            rcases List.mem_cons.1 mem with rfl | mem
            · exact ⟨_, _, _, next⟩
            · exact ih isRead mem

end RecordCodec.TypeExpr
