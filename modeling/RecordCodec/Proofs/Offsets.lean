import Mathlib.Data.List.TakeWhile
import RecordCodec.Proofs.Derivations
import RecordCodec.Proofs.Tokens

set_option autoImplicit false

/-!
# Where syntax errors are reported

A text is read from token to token, over the blanks between them, unless it stalls on the way: then
it is neither accepted nor rejected. Whatever is wrong with it is reported where a token starts,
where one should start and does not, or at the end of the text. Only the lexer makes offsets, and
the parser and what builds types pass on those that they are given.
-/
namespace RecordCodec.TypeExpr

/-! ### What a token takes up -/

section Consuming

theorem bytes_append (s t : List Char) : bytes (s ++ t) = bytes s + bytes t := by
  induction s with
  | nil => simp [bytes]
  | cons c s ih =>
    rw [List.cons_append, bytes, bytes, ih, Nat.add_assoc]

theorem utf8Size_of_isNumberChar {c : Char} (h : isNumberChar c = true) : c.utf8Size = 1 := by
  rw [Char.utf8Size_eq_one_iff]
  simp only [isNumberChar, Bool.or_eq_true, beq_iff_eq] at h
  rcases h with (((((digit | rfl) | rfl) | rfl) | rfl) | rfl) | rfl
  · simp only [Char.isDigit, Bool.and_eq_true, decide_eq_true_eq] at digit
    exact UInt32.le_trans digit.2 (by decide)
  all_goals decide

theorem bytes_of_isNumberChar {s : List Char} (h : ∀ c ∈ s, isNumberChar c = true) :
    bytes s = s.length := by
  induction s with
  | nil => rfl
  | cons c s ih =>
    rw [bytes, utf8Size_of_isNumberChar (h c List.mem_cons_self),
      ih fun d mem => h d (List.mem_cons_of_mem _ mem), List.length_cons, Nat.add_comm]

theorem nameChars_split (s : List Char) : (nameChars s).1 ++ (nameChars s).2 = s := by
  induction s using nameChars.induct with
  | case1 => rfl
  | case2 rest => rfl
  | case3 c rest noEllipsis isNameChar name others read ih =>
    rw [read] at ih
    rw [nameChars, if_pos isNameChar, read]
    · exact congrArg (c :: ·) ih
    · exact noEllipsis
  | case4 c rest noEllipsis noNameChar =>
    rw [nameChars, if_neg noNameChar]
    · rfl
    · exact noEllipsis

/-- The first of these characters is taken for the start of a name, and no name can hold it. -/
def Stuck : List Char → Prop
  | [] => False
  | c :: _ => startsName c = true ∧ isNameChar c = false

theorem nameChars_ne_nil {c : Char} {rest : List Char} (starts : startsName c = true)
    (free : ¬Stuck (c :: rest)) : (nameChars (c :: rest)).1 ≠ [] := by
  have isChar : isNameChar c = true := by
    by_contra notChar
    exact free ⟨starts, by simpa using notChar⟩
  rw [nameChars]
  · rw [if_pos isChar]
    exact List.cons_ne_nil _ _
  · rintro more rfl rfl
    cases starts

theorem stringChars_split {quote : Char} (ascii : quote.utf8Size = 1) {s : List Char}
    {text rest : List Char} {size : Nat} (h : stringChars quote s = some (text, size, rest)) :
    ∃ taken, s = taken ++ rest ∧ bytes taken = size := by
  induction s using stringChars.induct quote generalizing text size rest with
  | case1 => cases h
  | case2 => cases h
  | case3 c more ih =>
    rw [stringChars] at h
    obtain ⟨⟨text', size', rest'⟩, read, same⟩ := Option.map_eq_some_iff.1 h
    cases same
    obtain ⟨taken, rfl, rfl⟩ := ih read
    refine ⟨'\\' :: c :: taken, rfl, ?_⟩
    rw [bytes, bytes, Nat.add_assoc]
    rfl
  | case4 more notLast notEscaping =>
    rw [stringChars, if_pos rfl] at h
    · cases h
      exact ⟨[quote], rfl, by rw [bytes, ascii]; rfl⟩
    · exact notLast
    · exact notEscaping
  | case5 c more notLast notEscaping notQuote ih =>
    rw [stringChars, if_neg notQuote] at h
    · obtain ⟨⟨text', size', rest'⟩, read, same⟩ := Option.map_eq_some_iff.1 h
      cases same
      obtain ⟨taken, rfl, rfl⟩ := ih read
      exact ⟨c :: taken, rfl, rfl⟩
    · exact notLast
    · exact notEscaping

/-- The size of a token is that of the characters it takes up, at least one if the reader is not
stuck. -/
theorem nextToken_split {s rest : List Char} {token : Token} {size : Nat}
    (h : nextToken s = .ok (token, size, rest)) :
    ∃ taken, (¬Stuck s → taken ≠ []) ∧ s = taken ++ rest ∧ bytes taken = size := by
  unfold nextToken at h
  split at h
  case h_8 c more _ _ _ _ _ _ _ =>
    split at h
    case isTrue isQuote =>
      split at h
      case h_1 text size' rest' read =>
        cases h
        have ascii : c.utf8Size = 1 := by rcases isQuote with rfl | rfl <;> rfl
        obtain ⟨taken, rfl, rfl⟩ := stringChars_split ascii read
        exact ⟨c :: taken, fun _ => List.cons_ne_nil _ _, rfl, by rw [bytes, ascii, Nat.add_comm]⟩
      case h_2 => cases h
    case isFalse =>
      split at h
      case isTrue isNumber =>
        simp only at h
        split at h
        case h_1 n isRead =>
          cases h
          refine ⟨c :: more.takeWhile isNumberChar, fun _ => List.cons_ne_nil _ _, ?_, ?_⟩
          · rw [List.cons_append, List.takeWhile_append_dropWhile]
          · refine bytes_of_isNumberChar (List.forall_mem_cons.2 ⟨?_, fun d => ?_⟩)
            · rcases isNumber with rfl | digit
              · rfl
              · simp [isNumberChar, digit]
            · exact List.mem_takeWhile_imp
        case h_2 => cases h
      case isFalse =>
        split at h
        case isTrue isName =>
          cases h
          exact ⟨_, nameChars_ne_nil isName, (nameChars_split _).symm, rfl⟩
        case isFalse => cases h
  case h_9 => cases h
  case h_7 =>
    cases h
    exact ⟨['.', '.', '.'], fun _ => List.cons_ne_nil _ _, rfl, rfl⟩
  all_goals
    cases h
    exact ⟨[_], fun _ => List.cons_ne_nil _ _, rfl, rfl⟩

/-- An empty name is found, and everything is still left. -/
theorem nextToken_of_stuck {c : Char} {rest : List Char} (stuck : Stuck (c :: rest)) :
    Json.isSpace c = false ∧ nextToken (c :: rest) = .ok (.ident "", 0, c :: rest) := by
  obtain ⟨starts, notChar⟩ := stuck
  have noSpace : Json.isSpace c = false := by
    by_contra space
    simp only [Json.isSpace, Bool.not_eq_false, Bool.or_eq_true, beq_iff_eq] at space
    rcases space with ((rfl | rfl) | rfl) | rfl <;> cases starts
  have empty : nameChars (c :: rest) = ([], c :: rest) := by
    rw [nameChars, if_neg (by simp [notChar])]
    rintro more rfl rfl
    cases starts
  refine ⟨noSpace, ?_⟩
  unfold nextToken
  split
  case h_8 eq =>
    cases eq
    have quote : ¬(c = '\x27' ∨ c = '"') := by
      rintro (rfl | rfl) <;> cases starts
    have number : ¬(c = '-' ∨ c.isDigit = true) := by
      rintro (rfl | digit)
      · cases starts
      · rw [isDigit_of_startsName starts] at digit
        cases digit
    rw [if_neg quote, if_neg number, if_pos starts, empty]
    rfl
  case h_9 eq => cases eq
  all_goals
    rename_i eq
    obtain ⟨rfl, -⟩ := List.cons.inj eq
    cases starts

end Consuming

/-! ### Results with offsets -/

/-- Errors are reported at offsets of this kind, and results are as they should be. -/
def Within {α : Type} (P : Nat → Prop) (good : α → Prop) : Parsed α → Prop
  | .ok a => good a
  | .error e => P e.position

section Combining

variable {α β : Type} {P : Nat → Prop} {good : α → Prop} {better : β → Prop} {r : Parsed α}

theorem Within.bind {f : α → Parsed β} (h : Within P good r)
    (next : ∀ a, good a → Within P better (f a)) : Within P better (r >>= f) := by
  cases r with
  | error e => exact h
  | ok a => exact next a h

theorem Within.map {f : α → β} (h : Within P good r) (next : ∀ a, good a → better (f a)) :
    Within P better (r.map f) := by
  cases r with
  | error e => exact h
  | ok a => exact next a h

end Combining

/-! ### Where tokens start -/

/-- These characters are left at this offset, with blanks and whole tokens before them. -/
inductive Reached (text : List Char) : Nat → List Char → Prop where
  | start : Reached text 0 text
  | blank {offset : Nat} {c : Char} {rest : List Char} : Reached text offset (c :: rest) →
    Json.isSpace c = true → Reached text (offset + 1) rest
  | token {offset : Nat} {c : Char} {more rest : List Char} {token : Token} {size : Nat} :
    Reached text offset (c :: more) → Json.isSpace c = false →
    nextToken (c :: more) = .ok (token, size, rest) → Reached text (offset + size) rest

/-- The lexer looks for a token at this offset and finds what is given. -/
def LooksAt (text : String) (offset : Nat) (found : Except Flaw (Token × Nat × List Char)) : Prop :=
  ∃ before c rest, text.toList = before ++ c :: rest ∧ bytes before = offset ∧
    Reached text.toList offset (c :: rest) ∧ Json.isSpace c = false ∧ nextToken (c :: rest) = found

/-- A token starts at this offset. -/
def TokenAt (text : String) (offset : Nat) : Prop :=
  ∃ token size rest, 0 < size ∧ LooksAt text offset (.ok (token, size, rest))

/-- No token starts at this offset, where one should. -/
def NoTokenAt (text : String) (offset : Nat) : Prop := ∃ flaw, LooksAt text offset (.error flaw)

/-- The lexer comes to a place that it does not leave. -/
def Stalls (text : String) : Prop := ∃ offset s, Reached text.toList offset s ∧ Stuck s

section Lexing

variable {text : List Char} {offset : Nat} {s : List Char}

theorem Reached.split (h : Reached text offset s) :
    ∃ before, text = before ++ s ∧ bytes before = offset := by
  induction h with
  | start => exact ⟨[], rfl, rfl⟩
  | @blank offset c rest _ isSpace ih =>
    obtain ⟨before, isText, rfl⟩ := ih
    have ascii : c.utf8Size = 1 := by
      simp only [Json.isSpace, Bool.or_eq_true, beq_iff_eq] at isSpace
      rcases isSpace with ((rfl | rfl) | rfl) | rfl <;> rfl
    refine ⟨before ++ [c], by rw [isText, List.append_assoc, List.singleton_append], ?_⟩
    rw [bytes_append, bytes, ascii]
    rfl
  | token _ _ next ih =>
    obtain ⟨before, isText, rfl⟩ := ih
    obtain ⟨taken, -, isTaken, rfl⟩ := nextToken_split next
    refine ⟨before ++ taken, by rw [isText, isTaken, List.append_assoc], bytes_append _ _⟩

theorem Reached.looksAt {text : String} {c : Char} {rest : List Char}
    (h : Reached text.toList offset (c :: rest)) (noSpace : Json.isSpace c = false) :
    LooksAt text offset (nextToken (c :: rest)) := by
  obtain ⟨before, isText, size⟩ := h.split
  exact ⟨before, c, rest, isText, size, h, noSpace, rfl⟩

theorem lexFrom_of_stuck (stuck : Stuck s) (fuel : Nat) : lexFrom fuel offset s = none := by
  cases s with
  | nil => cases stuck
  | cons c rest =>
    obtain ⟨noSpace, next⟩ := nextToken_of_stuck stuck
    induction fuel generalizing offset with
    | zero => rfl
    | succ fuel ih =>
      rw [lexFrom_of_token noSpace next, ih]
      rfl

theorem Reached.lexFrom_eq_none (h : Reached text offset s)
    (endless : ∀ fuel, lexFrom fuel offset s = none) (fuel : Nat) : lexFrom fuel 0 text = none := by
  induction h with
  | start => exact endless fuel
  | blank _ isSpace ih =>
    refine ih fun fuel => ?_
    cases fuel with
    | zero => rfl
    | succ fuel => rw [lexFrom_of_isSpace isSpace, endless]
  | token _ noSpace next ih =>
    refine ih fun fuel => ?_
    cases fuel with
    | zero => rfl
    | succ fuel =>
      rw [lexFrom_of_token noSpace next, endless]
      rfl

theorem Stalls.lexFrom_eq_none {text : String} (h : Stalls text) (fuel : Nat) :
    lexFrom fuel 0 text.toList = none := by
  obtain ⟨offset, s, reached, stuck⟩ := h
  exact reached.lexFrom_eq_none (fun fuel => lexFrom_of_stuck stuck fuel) fuel

theorem bytes_pos (some : s ≠ []) : 0 < bytes s := by
  cases s with
  | nil => exact absurd rfl some
  | cons c rest => exact Nat.add_pos_left c.utf8Size_pos _

/-- Every token takes up at least one character until the lexer is stuck, so the fuel is used up
only then. -/
theorem lexFrom_within {text : String} {fuel : Nat} (h : Reached text.toList offset s)
    (enough : s.length ≤ fuel) :
    (lexFrom fuel offset s).elim (Stalls text)
      (Within (NoTokenAt text) fun ts => ∀ lexeme ∈ ts, TokenAt text lexeme.offset) := by
  induction fuel generalizing offset s with
  | zero =>
    obtain rfl := List.length_eq_zero_iff.1 (Nat.le_zero.1 enough)
    exact fun _ mem => absurd mem List.not_mem_nil
  | succ fuel ih =>
    cases s with
    | nil => exact fun _ mem => absurd mem List.not_mem_nil
    | cons c rest =>
      by_cases isSpace : Json.isSpace c = true
      · rw [lexFrom_of_isSpace isSpace]
        exact ih (.blank h isSpace) (Nat.le_of_succ_le_succ enough)
      · rw [Bool.not_eq_true] at isSpace
        have looks := h.looksAt isSpace
        cases next : nextToken (c :: rest) with
        | error flaw =>
          rw [lexFrom, if_neg (by simp [isSpace]), next]
          exact ⟨flaw, next ▸ looks⟩
        | ok found =>
          obtain ⟨token, size, after⟩ := found
          by_cases stuck : Stuck (c :: rest)
          · rw [lexFrom_of_stuck stuck]
            exact ⟨offset, _, h, stuck⟩
          · obtain ⟨taken, some, isTaken, isSize⟩ := nextToken_split next
            have shorter : after.length ≤ fuel := by
              have total := congrArg List.length isTaken
              have := List.length_pos_of_ne_nil (some stuck)
              rw [List.length_append] at total
              omega
            have here : TokenAt text offset :=
              ⟨token, size, after, isSize ▸ bytes_pos (some stuck), next ▸ looks⟩
            rw [lexFrom_of_token isSpace next]
            have later := ih (.token h isSpace next) shorter
            cases lexed : lexFrom fuel (offset + size) after with
            | none =>
              rw [lexed] at later
              exact later
            | some read =>
              rw [lexed] at later
              exact later.map fun ts placed => List.forall_mem_cons.2 ⟨here, placed⟩

theorem lex_within (text : String) :
    (lex text).elim (Stalls text)
      (Within (NoTokenAt text) fun ts => ∀ lexeme ∈ ts, TokenAt text lexeme.offset) :=
  lexFrom_within .start le_rfl

end Lexing

/-! ### What the parser passes on -/

def Argument.offset : Argument → Nat
  | type _ offset | literal _ offset | ellipsis offset | emptyTuple offset => offset

section Building

variable {P : Nat → Prop} {head : String} {offset : Nat}

theorem typesOnly_within {args : List Argument} (placed : ∀ arg ∈ args, P arg.offset) :
    Within P (fun _ => True) (typesOnly head args) := by
  induction args with
  | nil => trivial
  | cons arg args ih =>
    obtain ⟨here, others⟩ := List.forall_mem_cons.1 placed
    cases arg with
    | type => exact (ih others).map fun _ _ => trivial
    | _ => exact here

theorem literalsOnly_within {args : List Argument} (placed : ∀ arg ∈ args, P arg.offset) :
    Within P (fun _ => True) (literalsOnly args) := by
  induction args with
  | nil => trivial
  | cons arg args ih =>
    obtain ⟨here, others⟩ := List.forall_mem_cons.1 placed
    cases arg with
    | literal => exact (ih others).map fun _ _ => trivial
    | _ => exact here

theorem checkArity_within (here : P offset) (expected : Nat) (types : List TypeExpr) :
    Within P (fun _ => True) (checkArity head offset expected types) := by
  unfold checkArity
  split
  · trivial
  · exact here

theorem buildTuple_within (here : P offset) {args : Option (List Argument)}
    (placed : ∀ arg ∈ args.getD [], P arg.offset) :
    Within P (fun _ => True) (buildTuple head offset args) := by
  unfold buildTuple
  split
  case h_4 =>
    refine (typesOnly_within placed).bind fun items _ => ?_
    split
    · exact here
    · trivial
  all_goals trivial

theorem build_within (here : P offset) {args : Option (List Argument)}
    (placed : ∀ arg ∈ args.getD [], P arg.offset) :
    Within P (fun _ => True) (build head offset args) := by
  unfold build
  split
  case h_1 =>
    refine (typesOnly_within placed).bind fun types _ => ?_
    refine (checkArity_within here 1 types).bind fun _ _ => ?_
    trivial
  case h_2 =>
    refine (typesOnly_within placed).bind fun types _ => ?_
    split
    · exact here
    · trivial
  case h_3 =>
    split
    · exact here
    · exact (literalsOnly_within placed).map fun _ _ => trivial
  case h_4 => exact buildTuple_within here placed
  case h_5 shape defaults _ =>
    have applied (types : List TypeExpr) : Within P (fun _ => True) (do
        let types ← checkArity head offset defaults.length types
        .ok (apply shape types)) := by
      refine (checkArity_within here defaults.length types).bind fun _ _ => ?_
      trivial
    cases args with
    | none => exact applied defaults
    | some found => exact (typesOnly_within placed).bind fun types _ => applied types
  case h_6 =>
    split
    · exact here
    · split <;> trivial

end Building

section Parsing

variable {P : Nat → Prop} {finish fuel : Nat} {ts : List Lexeme}

def Placed (P : Nat → Prop) (ts : List Lexeme) : Prop := ∀ lexeme ∈ ts, P lexeme.offset

theorem offsetOf_placed (atFinish : P finish) (placed : Placed P ts) : P (offsetOf finish ts) := by
  cases ts with
  | nil => exact atFinish
  | cons lexeme => exact placed lexeme List.mem_cons_self

/-- With this much fuel the parser passes on what offsets it is given. -/
structure PassesOn (P : Nat → Prop) (finish fuel : Nat) : Prop where
  type {ts : List Lexeme} : Placed P ts →
    Within P (fun found => Placed P found.2) (parseUnion finish fuel ts)
  bars {ts : List Lexeme} : Placed P ts →
    Within P (fun found => Placed P found.2) (parseArms finish fuel ts)
  term {ts : List Lexeme} : Placed P ts →
    Within P (fun found => Placed P found.2) (parseTerm finish fuel ts)
  args {ts : List Lexeme} (literals : Bool) : Placed P ts →
    Within P (fun found => (∀ arg ∈ found.1, P arg.offset) ∧ Placed P found.2)
      (parseArgs finish literals fuel ts)
  arg {ts : List Lexeme} (literals : Bool) : Placed P ts →
    Within P (fun found => P found.1.offset ∧ Placed P found.2) (parseArg finish literals fuel ts)

theorem parseUnion_within (ih : PassesOn P finish fuel) (placed : Placed P ts) :
    Within P (fun found => Placed P found.2) (parseUnion finish (fuel + 1) ts) := by
  rw [parseUnion]
  exact (ih.term placed).bind fun _ placed => (ih.bars placed).bind fun _ placed => placed

theorem parseArms_within (ih : PassesOn P finish fuel) (placed : Placed P ts) :
    Within P (fun found => Placed P found.2) (parseArms finish (fuel + 1) ts) := by
  rw [parseArms.eq_def]
  simp only
  split
  case h_1 =>
    exact (ih.term (List.forall_mem_cons.1 placed).2).bind fun _ placed =>
      (ih.bars placed).bind fun _ placed => placed
  case h_2 => exact placed

theorem parseTerm_within (atFinish : P finish) (ih : PassesOn P finish fuel)
    (placed : Placed P ts) :
    Within P (fun found => Placed P found.2) (parseTerm finish (fuel + 1) ts) := by
  rw [parseTerm.eq_def]
  simp only
  split
  case h_1 => exact atFinish
  case h_2 name _ _ _ =>
    obtain ⟨here, placed⟩ := List.forall_mem_cons.1 placed
    refine (ih.args _ (List.forall_mem_cons.1 placed).2).bind fun found passed => ?_
    obtain ⟨placedArgs, placed⟩ := passed
    split
    case h_1 isRest =>
      rw [isRest] at placed
      have built : Within P (fun _ => True) (build name _ (some found.1)) :=
        build_within here placedArgs
      exact built.bind fun _ _ => (List.forall_mem_cons.1 placed).2
    case h_2 => exact offsetOf_placed atFinish placed
  case h_3 =>
    obtain ⟨here, placed⟩ := List.forall_mem_cons.1 placed
    exact (build_within here (by simp)).bind fun _ _ => placed
  case h_4 => exact placed _ List.mem_cons_self

theorem parseArgs_within (literals : Bool) (ih : PassesOn P finish fuel) (placed : Placed P ts) :
    Within P (fun found => (∀ arg ∈ found.1, P arg.offset) ∧ Placed P found.2)
      (parseArgs finish literals (fuel + 1) ts) := by
  rw [parseArgs.eq_def]
  simp only
  split
  case h_1 => exact ⟨fun _ mem => absurd mem List.not_mem_nil, placed⟩
  case h_2 =>
    refine (ih.arg literals placed).bind fun found passed => ?_
    obtain ⟨here, placed⟩ := passed
    split
    case h_1 isRest =>
      rw [isRest] at placed
      exact (ih.args literals (List.forall_mem_cons.1 placed).2).bind fun _ more =>
        ⟨List.forall_mem_cons.2 ⟨here, more.1⟩, more.2⟩
    case h_2 => exact ⟨List.forall_mem_singleton.2 here, placed⟩

theorem parseArg_within (literals : Bool) (atFinish : P finish) (ih : PassesOn P finish fuel)
    (placed : Placed P ts) :
    Within P (fun found => P found.1.offset ∧ Placed P found.2)
      (parseArg finish literals (fuel + 1) ts) := by
  rw [parseArg.eq_def]
  simp only
  split
  case h_1 => exact atFinish
  case h_5 =>
    obtain ⟨here, placed⟩ := List.forall_mem_cons.1 placed
    split
    case h_1 => exact ⟨here, (List.forall_mem_cons.1 placed).2⟩
    case h_2 => exact offsetOf_placed atFinish placed
  case h_6 =>
    obtain ⟨here, others⟩ := List.forall_mem_cons.1 placed
    split
    case h_1 =>
      split
      case h_1 => exact ⟨here, others⟩
      case h_2 => exact (ih.type placed).map fun _ placed => ⟨here, placed⟩
    case h_2 => exact (ih.type placed).map fun _ placed => ⟨here, placed⟩
  all_goals exact List.forall_mem_cons.1 placed

theorem passesOn (atFinish : P finish) (fuel : Nat) : PassesOn P finish fuel := by
  induction fuel with
  | zero =>
    have out {ts : List Lexeme} : Placed P ts → P (offsetOf finish ts) := offsetOf_placed atFinish
    exact ⟨out, out, out, fun _ => out, fun _ => out⟩
  | succ fuel ih =>
    exact ⟨parseUnion_within ih, parseArms_within ih, parseTerm_within atFinish ih,
      fun literals => parseArgs_within literals ih,
      fun literals => parseArg_within literals atFinish ih⟩

theorem parseAll_within (atFinish : P finish) (placed : Placed P ts) :
    Within P (fun _ => True) (parseAll finish ts) := by
  refine ((passesOn atFinish _).type placed).bind fun found placed => ?_
  obtain ⟨ty, rest⟩ := found
  cases rest with
  | nil => trivial
  | cons lexeme => exact placed lexeme List.mem_cons_self

end Parsing

theorem parse_eq_none_iff {text : String} : parse text = none ↔ Stalls text := by
  rw [parse, Option.map_eq_none_iff]
  constructor
  · intro endless
    have lexed := lex_within text
    rw [endless] at lexed
    exact lexed
  · exact fun stalls => stalls.lexFrom_eq_none _

/-- The parser accepts just the token sequences that the grammar derives as a type, whatever their
offsets, and gives that type. A text that is rejected is rejected at the start of a token, where no
token starts though one should, or at its end. A text on which the lexer stalls is neither accepted
nor rejected, whatever fuel there is, and no other text is left without an answer. -/
theorem parser_follows_grammar :
    (∀ (finish : Nat) (ts : List Lexeme) (ty : TypeExpr),
      parseAll finish ts = .ok ty ↔ Derives (ts.map Lexeme.token) (.type ty)) ∧
    (∀ (text : String) (e : SyntaxError), parse text = some (.error e) →
      TokenAt text e.position ∨ NoTokenAt text e.position ∨ e.position = text.utf8ByteSize) ∧
    ∀ text : String, (parse text = none ↔ Stalls text) ∧
      (Stalls text → ∀ fuel, lexFrom fuel 0 text.toList = none) := by
  refine ⟨fun _ _ _ => parseAll_eq_ok_iff, fun text e rejected => ?_,
    fun text => ⟨parse_eq_none_iff, Stalls.lexFrom_eq_none⟩⟩
  have lexed := lex_within text
  obtain ⟨read, isRead, rejected⟩ := Option.map_eq_some_iff.1 rejected
  rw [isRead] at lexed
  cases read with
  | error e' =>
    cases rejected
    exact .inr (.inl lexed)
  | ok ts =>
    have rejected : parseAll text.utf8ByteSize ts = .error e := rejected
    have parsed := parseAll_within (P := fun offset =>
      TokenAt text offset ∨ offset = text.utf8ByteSize) (.inr rfl)
      fun lexeme mem => .inl (lexed lexeme mem)
    rw [rejected] at parsed
    exact parsed.imp_right .inr

/-- The sign could start a name by its first byte, and it is no letter. -/
theorem stuck_euro (rest : List Char) : Stuck ('\u20ac' :: rest) := by
  refine ⟨by decide, ?_⟩
  -- the table is searched as a list: an array is slow to reduce
  have noLetter : Text.isAlphanumeric '\u20ac' = false := by
    rw [Text.isAlphanumeric, if_neg (by decide), ← Array.any_toList]
    decide +kernel
  rw [isNameChar, noLetter]
  decide

/-- A bracket after a type is reported where it stands, and a sign that is no letter is never passed
over. -/
theorem parser_follows_grammar_bracket :
    Derives [.ident "int"] (.type (primitive .int)) ∧
      parse "int ]" = some (.error ⟨4, .trailingInput⟩) ∧
      (TokenAt "int ]" 4 ∨ NoTokenAt "int ]" 4 ∨ 4 = "int ]".utf8ByteSize) ∧
      parse "int | \u20ac" = none ∧ ∀ fuel, lexFrom fuel 0 "int | \u20ac".toList = none := by
  have accepted : parseAll 3 [⟨.ident "int", 0⟩] = .ok (primitive .int) := by rfl
  have rejected : parse "int ]" = some (.error ⟨4, .trailingInput⟩) := by rfl
  have endless : Stalls "int | \u20ac" :=
    ⟨_, _, .blank (.token (.blank (.token .start rfl rfl) rfl) rfl rfl) rfl, stuck_euro []⟩
  obtain ⟨accepts, places, stalls⟩ := parser_follows_grammar
  exact ⟨(accepts 3 [⟨.ident "int", 0⟩] _).1 accepted, rejected, places "int ]" _ rejected,
    (stalls _).1.2 endless, (stalls _).2 endless⟩

end RecordCodec.TypeExpr
