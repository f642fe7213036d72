/-
What `_COMPARISON_RE` makes of an expression.

The blanks, the path and the blanks before the operator are taken whole, since
none of them can begin with what follows it ([`match?_comparison`]). At the
operator the pattern prefers the longest one that stands there and falls back on
a shorter one only where nothing is left for a literal ([`match?_operator`]).
The literal is what is left, without its blanks.

So every expression of the grammar is read as it is meant
([`match?_expression`]). What the pattern accepts beyond it are expressions whose
right-hand side is missing: blanks after the operator are taken for a literal,
and so is the `=` of a `>=` or `<=` that ends the expression.
-/
import EventFlow.Conditions
import EventFlow.JsonText

set_option autoImplicit false

namespace EventFlow

open Backtracking

/-! ## Characters -/

section Characters

variable {u : PyStr.Unicode} {c : Char}

/-- The characters of the operators. -/
def operator_char (c : Char) : Bool := c == '=' || c == '!' || c == '<' || c == '>'

theorem operator_char_cases (h : operator_char c = true) :
    c = '=' ∨ c = '!' ∨ c = '<' ∨ c = '>' := by
  simpa only [operator_char, Bool.or_eq_true, beq_iff_eq, or_assoc] using h

theorem operator_char_not_isspace (h : operator_char c = true) : PyStr.isspace c = false := by
  obtain rfl | rfl | rfl | rfl := operator_char_cases h <;> decide

theorem operator_char_not_path (h : operator_char c = true) : path_char u c = false := by
  have hascii : c.toNat < 128 := by
    obtain rfl | rfl | rfl | rfl := operator_char_cases h <;> decide
  unfold path_char
  rw [u.word_ascii hascii]
  obtain rfl | rfl | rfl | rfl := operator_char_cases h <;> decide

theorem path_char_not_isspace (h : path_char u c = true) : PyStr.isspace c = false := by
  rcases Bool.or_eq_true_iff.mp h with hword | hdot
  · exact u.word_not_isspace hword
  · rw [beq_iff_eq.mp hdot]
    decide

/-- Kinds of characters exclude each other both ways. -/
theorem excluded {p q : Char → Bool} (h : ∀ {c}, p c = true → q c = false)
    (hq : q c = true) : p c = false := by
  by_contra hp
  rw [Bool.not_eq_false] at hp
  rw [h hp] at hq
  exact Bool.false_ne_true hq

/-- An operator begins with one of its characters. -/
theorem Operator.text_head (operator : Operator) (rest : List Char) :
    ∃ c, (operator.text.toList ++ rest).head? = some c ∧ operator_char c = true := by
  cases operator <;> exact ⟨_, rfl, by decide⟩

end Characters

/-! ## The parts of the pattern -/

section Parts

variable {u : PyStr.Unicode} {text : List Char}

/-- Where the pattern goes on, an operator stands. -/
theorem operator_stands {groups : List (List Char)} (h : match? OPERATOR_RE text = some groups) :
    ∃ operator : Operator, operator.text.toList <+: text := by
  by_contra hnone
  have hfails : match? OPERATOR_RE text = none := by
    apply match?_cons_none
    intro n hn
    rw [Item.lengths, List.mem_map] at hn
    obtain ⟨word, hword, -⟩ := hn
    rw [List.mem_filter, List.mem_map] at hword
    obtain ⟨⟨operator, -, rfl⟩, hstands⟩ := hword
    exact absurd ⟨operator, List.isPrefixOf_iff_prefix.mp hstands⟩ hnone
  rw [hfails] at h
  cases h

theorem match?_operator_none (h : ∀ c ∈ text.head?, operator_char c = false) :
    match? OPERATOR_RE text = none := by
  cases hmatch : match? OPERATOR_RE text with
  | none => rfl
  | some groups =>
      obtain ⟨operator, rest, rfl⟩ := operator_stands hmatch
      obtain ⟨c, hhead, hc⟩ := operator.text_head rest
      rw [h c hhead] at hc
      exact absurd hc Bool.false_ne_true

/-- The blanks before the operator. -/
theorem match?_blanks_operator {mid rest : List Char} (hmid : ∀ c ∈ mid, PyStr.isspace c = true)
    (hrest : ∀ c ∈ rest.head?, PyStr.isspace c = false) :
    match? (blanks :: OPERATOR_RE) (mid ++ rest) = match? OPERATOR_RE rest := by
  unfold blanks
  rw [match?_greedy_apart hmid hrest, if_pos (Nat.zero_le _), Part.keep_uncaptured,
    Option.map_id, id]
  · intro c tail hc
    apply match?_operator_none
    rintro d ⟨⟩
    exact excluded operator_char_not_isspace hc

/-- The path. -/
theorem match?_path {path rest : List Char} (hpath : ∀ c ∈ path, path_char u c = true)
    (hrest : ∀ c ∈ rest.head?, path_char u c = false) :
    match? (⟨.greedy 1 (path_char u), true⟩ :: blanks :: OPERATOR_RE) (path ++ rest)
      = if 1 ≤ path.length then
          (match? (blanks :: OPERATOR_RE) rest).map fun groups => path :: groups
        else none := by
  rw [match?_greedy_apart hpath hrest]
  · rfl
  · intro c tail hc
    have hspace : ∀ d ∈ (c :: tail).head?, PyStr.isspace d = false := by
      rintro d ⟨⟩
      exact path_char_not_isspace hc
    have hoperator : ∀ d ∈ (c :: tail).head?, operator_char d = false := by
      rintro d ⟨⟩
      exact excluded operator_char_not_path hc
    calc match? (blanks :: OPERATOR_RE) ([] ++ c :: tail)
        = match? OPERATOR_RE (c :: tail) := match?_blanks_operator (List.forall_mem_nil _) hspace
      _ = none := match?_operator_none hoperator

/-- The blanks before the path. -/
theorem match?_blanks_path {front rest : List Char}
    (hfront : ∀ c ∈ front, PyStr.isspace c = true)
    (hrest : ∀ c ∈ rest.head?, PyStr.isspace c = false) :
    match? (COMPARISON_RE u) (front ++ rest)
      = match? (⟨.greedy 1 (path_char u), true⟩ :: blanks :: OPERATOR_RE) rest := by
  unfold COMPARISON_RE
  rw [blanks, match?_greedy_apart hfront hrest, if_pos (Nat.zero_le _), Part.keep_uncaptured,
    Option.map_id, id]
  · intro c tail hc
    have hnext : ∀ d ∈ (c :: tail).head?, path_char u d = false := by
      rintro d ⟨⟩
      exact excluded path_char_not_isspace hc
    have hnone : match? (⟨.greedy 1 (path_char u), true⟩ :: blanks :: OPERATOR_RE)
        ([] ++ c :: tail) = none := by
      rw [match?_path (List.forall_mem_nil _) hnext, if_neg (by decide)]
    exact hnone

/-- Blanks, a path and blanks: what may stand before an operator. -/
structure Leads (u : PyStr.Unicode) (front path mid : List Char) : Prop where
  front : ∀ c ∈ front, PyStr.isspace c = true
  path_ne_nil : path ≠ []
  path : ∀ c ∈ path, path_char u c = true
  mid : ∀ c ∈ mid, PyStr.isspace c = true

/-- **What stands before the operator** is taken whole. A blank is not a path character
and a path character is not a blank or the start of an operator, so to give back a
character would never let the rest match; this is why a greedy match that backtracks takes
these parts without going back. -/
theorem match?_comparison {front path mid rest : List Char} (h : Leads u front path mid)
    (hnext : ∀ c ∈ (mid ++ rest).head?, path_char u c = false)
    (hrest : ∀ c ∈ rest.head?, PyStr.isspace c = false) :
    match? (COMPARISON_RE u) (front ++ (path ++ (mid ++ rest)))
      = (match? OPERATOR_RE rest).map fun groups => path :: groups := by
  have hhead : ∀ c ∈ (path ++ (mid ++ rest)).head?, PyStr.isspace c = false := by
    rw [List.head?_append_of_ne_nil _ h.path_ne_nil]
    intro c hc
    exact path_char_not_isspace (h.path c (List.mem_of_mem_head? hc))
  have hpos : 1 ≤ path.length := List.length_pos_iff.mpr h.path_ne_nil
  rw [match?_blanks_path h.front hhead, match?_path h.path hnext, if_pos hpos,
    match?_blanks_operator h.mid hrest]

/-- What has an operator at its beginning begins with neither a blank nor a
character of a path. -/
theorem match?_at_operator {front path mid : List Char} (h : Leads u front path mid)
    {operator : Operator} {rest : List Char} (hstands : operator.text.toList <+: rest) :
    match? (COMPARISON_RE u) (front ++ (path ++ (mid ++ rest)))
      = (match? OPERATOR_RE rest).map fun groups => path :: groups := by
  obtain ⟨tail, rfl⟩ := hstands
  obtain ⟨c, hhead, hc⟩ := operator.text_head tail
  have hrest : ∀ d ∈ (operator.text.toList ++ tail).head?, d = c := by
    intro d hd
    rw [Option.mem_def, hhead] at hd
    exact (Option.some.inj hd).symm
  apply match?_comparison h
  · cases hmid : mid with
    | nil =>
        intro d hd
        rw [hrest d hd]
        exact operator_char_not_path hc
    | cons b mid' =>
        rintro d ⟨⟩
        exact excluded path_char_not_isspace (h.mid b (hmid ▸ List.mem_cons_self))
  · intro d hd
    rw [hrest d hd]
    exact operator_char_not_isspace hc

end Parts

/-! ## The operator -/

/-- The longest operator that stands at the beginning of a text. -/
def Operator.LongestAt (operator : Operator) (text : List Char) : Prop :=
  operator.text.toList <+: text ∧
    ∀ other : Operator, other.text.toList <+: text →
      other.text.toList.length ≤ operator.text.toList.length

section Operators

variable {operator : Operator} {text rest : List Char}

theorem Operator.length_text (operator : Operator) :
    1 ≤ operator.text.toList.length ∧ operator.text.toList.length ≤ 2 := by
  cases operator <;> decide

/-- No operator is continued by anything but `=`. -/
theorem Operator.longestAt_append (hrest : ∀ c ∈ rest.head?, c ≠ '=') :
    operator.LongestAt (operator.text.toList ++ rest) := by
  refine ⟨List.prefix_append _ _, ?_⟩
  intro other hother
  by_contra hlonger
  have hlengths := And.intro operator.length_text other.length_text
  obtain ⟨tail, htail⟩ := hother
  -- an operator of two characters ends in `=`, and it stands where the rest begins
  have hlast : other.text.toList[1]? = some '=' := by
    have htwo : other.text.toList.length = 2 := by omega
    revert htwo
    cases other <;> decide
  have hhead : rest.head? = some '=' := by
    have hone : operator.text.toList.length = 1 := by omega
    have hget := congrArg (fun l : List Char => l[1]?) htail
    rw [List.getElem?_append_left (by omega), hlast, List.getElem?_append_right (by omega), hone,
      Nat.sub_self, ← List.head?_eq_getElem?] at hget
    exact hget.symm
  exact hrest '=' hhead rfl

/-- A longest operator: where one of them is not, there is one of two characters. -/
theorem Operator.exists_longestAt (h : operator.text.toList <+: text) :
    ∃ longest : Operator, longest.LongestAt text := by
  by_cases hlongest : operator.LongestAt text
  · exact ⟨operator, hlongest⟩
  · have hother : ∃ other : Operator, other.text.toList <+: text ∧
        operator.text.toList.length < other.text.toList.length := by
      by_contra hnone
      apply hlongest
      refine ⟨h, ?_⟩
      intro other hother
      by_contra hlonger
      exact hnone ⟨other, hother, by omega⟩
    obtain ⟨other, hstands, hlonger⟩ := hother
    refine ⟨other, hstands, ?_⟩
    intro third _
    have hlengths := And.intro operator.length_text third.length_text
    omega

/-- **The longest operator is preferred.** The alternatives are tried in the order of the
pattern, `>=` before `>`. If the longer one stands there and the rest is a literal, the
shorter one is never looked at. -/
theorem match?_operator {groups : List (List Char)}
    (hlongest : operator.LongestAt (operator.text.toList ++ rest))
    (hliteral : match? LITERAL_RE rest = some groups) :
    match? OPERATOR_RE (operator.text.toList ++ rest) = some (operator.text.toList :: groups) := by
  have hwords : ∀ v ∈ Operator.all.map fun operator => operator.text.toList,
      ∃ other : Operator, v = other.text.toList := by
    intro v hv
    obtain ⟨other, -, rfl⟩ := List.mem_map.mp hv
    exact ⟨other, rfl⟩
  apply match?_words_longest (by decide) (List.mem_map_of_mem operator.mem_all) _ hliteral
  intro v hv hstands
  obtain ⟨other, rfl⟩ := hwords v hv
  exact hlongest.2 other hstands

/-- An operator with something after it is accepted. -/
theorem match?_operator_isSome (hliteral : (match? LITERAL_RE rest).isSome = true) :
    (match? OPERATOR_RE (operator.text.toList ++ rest)).isSome = true :=
  match?_words_isSome (List.mem_map_of_mem operator.mem_all) hliteral

/-- An operator alone: of two of them the `=` is taken for a literal. -/
theorem match?_operator_alone :
    (match? OPERATOR_RE operator.text.toList).isSome = true ↔ operator = .ge ∨ operator = .le := by
  cases operator <;> decide

end Operators

/-! ## The literal -/

section Literal

variable {rest : List Char}

theorem any_char_of_line (hline : '\n' ∉ rest) : ∀ c ∈ rest, any_char c = true := by
  intro c hc
  rw [any_char, bne_iff_ne]
  rintro rfl
  exact hline hc

/-- A literal in blanks. -/
theorem match?_literal {front literal back : List Char} (hsolid : Solid PyStr.isspace literal)
    (hfront : ∀ c ∈ front, PyStr.isspace c = true) (hback : ∀ c ∈ back, PyStr.isspace c = true)
    (hline : '\n' ∉ literal ++ back) :
    match? LITERAL_RE (front ++ (literal ++ back)) = some [literal] :=
  match?_trimmed hsolid hfront hback (any_char_of_line hline) hline

/-- Whatever is left is a literal. -/
theorem match?_literal_isSome (hline : '\n' ∉ rest) :
    (match? LITERAL_RE rest).isSome = true ↔ rest ≠ [] := by
  constructor
  · rintro hsome rfl
    exact absurd hsome (by decide)
  · intro hne
    by_cases hink : ∃ c ∈ rest, PyStr.isspace c = false
    · obtain ⟨front, literal, back, rfl, hsolid, hfront, hback⟩ := exists_solid hink
      rw [match?_literal hsolid hfront hback]
      · rfl
      · exact fun h => hline (List.mem_append_right _ h)
    · -- only blanks are left
      obtain ⟨front, c, rfl⟩ := (List.eq_nil_or_concat' rest).resolve_left hne
      have hblank : ∀ b ∈ front ++ [c], PyStr.isspace b = true := by
        intro b hb
        by_contra hb'
        rw [Bool.not_eq_true] at hb'
        exact hink ⟨b, hb, hb'⟩
      have hlast := any_char_of_line hline c (List.mem_append_right _ List.mem_cons_self)
      unfold LITERAL_RE
      rw [match?_trimmed_blanks (fun b hb => hblank b (List.mem_append_left _ hb))
        (hblank c (List.mem_append_right _ List.mem_cons_self)) hlast]
      rfl

end Literal

/-! ## Expressions -/

/-- An expression, from its parts. -/
def expression_text (front path mid : List Char) (operator : Operator) (rest : List Char) :
    List Char :=
  front ++ (path ++ (mid ++ (operator.text.toList ++ rest)))

section Expressions

variable {u : PyStr.Unicode} {loads : String → Option Json} {e : String}
  {front path mid rest : List Char} {operator : Operator}

/-- **An expression of the grammar is read as it is meant.** The literal must not begin
with `=`, or a `>` before it would be read as `>=`; and it neither begins nor ends with a
blank, so the blanks around it are not taken into it. -/
theorem match?_expression {inner literal back : List Char} (h : Leads u front path mid)
    (hinner : ∀ c ∈ inner, PyStr.isspace c = true) (hsolid : Solid PyStr.isspace literal)
    (hne : ∀ c ∈ literal.head?, c ≠ '=') (hback : ∀ c ∈ back, PyStr.isspace c = true)
    (hline : '\n' ∉ literal ++ back) :
    match? (COMPARISON_RE u) (expression_text front path mid operator (inner ++ (literal ++ back)))
      = some [path, operator.text.toList, literal] := by
  have hlongest : operator.LongestAt (operator.text.toList ++ (inner ++ (literal ++ back))) := by
    apply Operator.longestAt_append
    cases inner with
    | nil =>
        rw [List.nil_append, List.head?_append_of_ne_nil _ hsolid.ne_nil]
        exact hne
    | cons b inner =>
        rintro c ⟨⟩ rfl
        exact absurd (hinner '=' List.mem_cons_self) (by decide)
  unfold expression_text
  rw [match?_at_operator h (List.prefix_append _ _),
    match?_operator hlongest (match?_literal hsolid hinner hback hline)]
  rfl

/-- The value of such an expression. -/
theorem evaluate_of_match {path raw : List Char} (data : JsonObject)
    (h : match? (COMPARISON_RE u) e.toList = some [path, operator.text.toList, raw]) :
    evaluate_condition_expression u loads e data
      = (operator.apply (resolve_path data path) (parse_literal loads raw)).mapError
          evaluation_error := by
  unfold evaluate_condition_expression
  rw [h]
  dsimp only
  rw [Operator.of_text_text]

/-- What the pattern accepts has an operator after blanks, a path and blanks. -/
theorem match?_comparison_inv {text : List Char} {groups : List (List Char)}
    (h : match? (COMPARISON_RE u) text = some groups) :
    ∃ front path mid rest groups', ∃ operator : Operator, Leads u front path mid ∧
      text = front ++ (path ++ (mid ++ rest)) ∧ operator.text.toList <+: rest ∧
      match? OPERATOR_RE rest = some groups' ∧ groups = path :: groups' := by
  -- the blanks, the path and the blanks, each as long as it gets
  obtain ⟨front, t₁, rfl, hfront, ht₁⟩ := exists_run PyStr.isspace text
  obtain ⟨path, t₂, rfl, hpath, ht₂⟩ := exists_run (path_char u) t₁
  obtain ⟨mid, rest, rfl, hmid, hrest⟩ := exists_run PyStr.isspace t₂
  have hne : path ≠ [] := by
    rintro rfl
    rw [match?_blanks_path hfront ht₁, match?_path hpath ht₂] at h
    cases h
  have hleads : Leads u front path mid := ⟨hfront, hne, hpath, hmid⟩
  rw [match?_comparison hleads ht₂ hrest, Option.map_eq_some_iff] at h
  obtain ⟨groups', hgroups, heq⟩ := h
  obtain ⟨operator, hstands⟩ := operator_stands hgroups
  exact ⟨front, path, mid, rest, groups', operator, hleads, rfl, hstands, hgroups, heq.symm⟩

/-- The three groups. -/
theorem comparison_groups {text : List Char} {groups : List (List Char)}
    (h : match? (COMPARISON_RE u) text = some groups) :
    ∃ path operator raw, groups = [path, operator, raw] :=
  List.length_eq_three.mp (length_of_match? h)

end Expressions

/-! ## The grammar -/

/-- `evaluate_condition_expression` gets past its check of the expression. -/
def PassesCheck (u : PyStr.Unicode) (loads : String → Option Json) (e : String) : Prop :=
  ∀ data err, evaluate_condition_expression u loads e data = .error err →
    err.code ≠ "invalid_expression"

/-- Blanks, a path, blanks, an operator, blanks, a literal that is not blank, and
blanks. -/
def InGrammar (u : PyStr.Unicode) (text : List Char) : Prop :=
  ∃ front path mid operator inner literal back, Leads u front path mid ∧
    (∀ c ∈ inner, PyStr.isspace c = true) ∧ (∃ c ∈ literal, PyStr.isspace c = false) ∧
    (∀ c ∈ back, PyStr.isspace c = true) ∧
    text = expression_text front path mid operator (inner ++ (literal ++ back))

/-- Nothing but blanks after the operator. -/
def MissingRhs (u : PyStr.Unicode) (text : List Char) : Prop :=
  ∃ front path mid operator back, Leads u front path mid ∧
    (∀ c ∈ back, PyStr.isspace c = true) ∧ text = expression_text front path mid operator back

/-- The grammar is exact at an expression: it is accepted if and only if it is of
the grammar, the operator that is applied is the longest of those that stand at
its place, and a missing right-hand side is rejected. -/
structure GrammarExact (u : PyStr.Unicode) (loads : String → Option Json) (e : String) : Prop where
  accepted_iff : PassesCheck u loads e ↔ InGrammar u e.toList
  longest : ∀ path operator raw, match? (COMPARISON_RE u) e.toList = some [path, operator, raw] →
    ∀ front path' mid rest, Leads u front path' mid → e.toList = front ++ (path' ++ (mid ++ rest)) →
      (∃ other : Operator, other.text.toList <+: rest) →
      (Operator.of_text operator).LongestAt rest
  missing_rejected : MissingRhs u e.toList → ¬ PassesCheck u loads e

/-- The expressions without a right-hand side that have something to take for
one: blanks after the operator, or a `>=` or `<=` at the end. -/
def FalseLiteral (u : PyStr.Unicode) (text : List Char) : Prop :=
  ∃ front path mid operator back, Leads u front path mid ∧
    (∀ c ∈ back, PyStr.isspace c = true) ∧
    text = expression_text front path mid operator back ∧
    (back ≠ [] ∨ operator = .ge ∨ operator = .le)

section Grammar

variable {u : PyStr.Unicode} {loads : String → Option Json} {e : String}
  {front path mid rest : List Char} {operator : Operator}

theorem passesCheck_iff_match :
    PassesCheck u loads e ↔ (match? (COMPARISON_RE u) e.toList).isSome = true := by
  constructor
  · intro h
    cases hmatch : match? (COMPARISON_RE u) e.toList with
    | some groups => rfl
    | none =>
        refine absurd rfl (h [] { message := s!"Unsupported condition expression: {e}",
                                  code := "invalid_expression" } ?_)
        unfold evaluate_condition_expression
        rw [hmatch]
  · intro hsome data err herr
    obtain ⟨groups, hmatch⟩ := Option.isSome_iff_exists.mp hsome
    obtain ⟨path, operator, raw, rfl⟩ := comparison_groups hmatch
    unfold evaluate_condition_expression at herr
    rw [hmatch] at herr
    dsimp only at herr
    cases happly : (Operator.of_text operator).apply (resolve_path data path)
        (parse_literal loads raw) with
    | ok b =>
        rw [happly] at herr
        cases herr
    | error text =>
        rw [happly] at herr
        cases herr
        show "evaluation_error" ≠ "invalid_expression"
        decide

/-- Whether an expression is accepted is decided from its operator on. -/
theorem match?_expression_isSome (h : Leads u front path mid) :
    (match? (COMPARISON_RE u) (expression_text front path mid operator rest)).isSome
      = (match? OPERATOR_RE (operator.text.toList ++ rest)).isSome := by
  unfold expression_text
  rw [match?_at_operator h (List.prefix_append _ _), Option.isSome_map]

theorem line_of_expression {text : List Char}
    (htext : text = expression_text front path mid operator rest) (hline : '\n' ∉ text) :
    '\n' ∉ rest := by
  intro hmem
  apply hline
  rw [htext]
  simp only [expression_text, List.mem_append]
  exact Or.inr (Or.inr (Or.inr (Or.inr hmem)))

/-- An expression with something after its operator is accepted. -/
theorem accepted_of_rest (h : Leads u front path mid)
    (htext : e.toList = expression_text front path mid operator rest) (hne : rest ≠ [])
    (hline : '\n' ∉ e.toList) : PassesCheck u loads e := by
  rw [passesCheck_iff_match, htext, match?_expression_isSome h]
  exact match?_operator_isSome
    ((match?_literal_isSome (line_of_expression htext hline)).mpr hne)

/-- An expression that ends with its operator is accepted for two operators. -/
theorem accepted_alone_iff (h : Leads u front path mid)
    (htext : e.toList = expression_text front path mid operator []) :
    PassesCheck u loads e ↔ operator = .ge ∨ operator = .le := by
  rw [passesCheck_iff_match, htext, match?_expression_isSome h, List.append_nil]
  exact match?_operator_alone

/-- A false literal is accepted. -/
theorem FalseLiteral.accepted (h : FalseLiteral u e.toList) (hline : '\n' ∉ e.toList) :
    PassesCheck u loads e := by
  obtain ⟨front, path, mid, operator, back, hleads, hback, htext, hcase⟩ := h
  by_cases hne : back = []
  · subst hne
    exact (accepted_alone_iff hleads htext).mpr (hcase.resolve_left fun hne => hne rfl)
  · exact accepted_of_rest hleads htext hne hline

theorem FalseLiteral.missingRhs {text : List Char} (h : FalseLiteral u text) :
    MissingRhs u text := by
  obtain ⟨front, path, mid, operator, back, hleads, hback, htext, -⟩ := h
  exact ⟨front, path, mid, operator, back, hleads, hback, htext⟩

/-- Where nothing can be taken for a literal, a missing right-hand side is
rejected. -/
theorem MissingRhs.rejected (h : MissingRhs u e.toList) (hfalse : ¬ FalseLiteral u e.toList) :
    ¬ PassesCheck u loads e := by
  obtain ⟨front, path, mid, operator, back, hleads, hback, htext⟩ := h
  have hback : back = [] := by
    by_contra hne
    exact hfalse ⟨front, path, mid, operator, back, hleads, hback, htext, Or.inl hne⟩
  subst hback
  intro haccepted
  exact hfalse ⟨front, path, mid, operator, [], hleads, List.forall_mem_nil _, htext,
    Or.inr ((accepted_alone_iff hleads htext).mp haccepted)⟩

/-- Something other than blanks follows the operator of an expression that is
accepted, whichever operator of its place is taken. -/
theorem literal_of_accepted (h : Leads u front path mid)
    (htext : e.toList = expression_text front path mid operator rest)
    (haccepted : PassesCheck u loads e) (hfalse : ¬ FalseLiteral u e.toList) :
    ∃ c ∈ rest, PyStr.isspace c = false := by
  by_contra hnone
  have hblank : ∀ c ∈ rest, PyStr.isspace c = true := by
    intro c hc
    by_contra hc'
    rw [Bool.not_eq_true] at hc'
    exact hnone ⟨c, hc, hc'⟩
  exact MissingRhs.rejected ⟨front, path, mid, operator, rest, h, hblank, htext⟩ hfalse haccepted

end Grammar

/-- **The condition grammar is exact** at an expression of one line if and only if the
expression has no false literal. A match yields the parts of an expression: what stands
before the operator, the operator, and a rest that is the literal. The rest is a literal
of the grammar unless it is blank, or is the `=` of an operator that has been cut short;
these two are the false literals. -/
theorem condition_grammar_exact_iff (u : PyStr.Unicode) (loads : String → Option Json) (e : String)
    (hline : '\n' ∉ e.toList) : GrammarExact u loads e ↔ ¬ FalseLiteral u e.toList := by
  constructor
  · intro hexact hfalse
    exact hexact.missing_rejected hfalse.missingRhs (hfalse.accepted hline)
  · intro hfalse
    refine ⟨⟨?_, ?_⟩, ?_, fun hmissing => hmissing.rejected hfalse⟩
    · intro haccepted
      obtain ⟨groups, hmatch⟩ := Option.isSome_iff_exists.mp (passesCheck_iff_match.mp haccepted)
      obtain ⟨front, path, mid, _, _, operator, hleads, htext, ⟨rest, rfl⟩, -, -⟩ :=
        match?_comparison_inv hmatch
      have hink := literal_of_accepted hleads htext haccepted hfalse
      refine ⟨front, path, mid, operator, [], rest, [], hleads, List.forall_mem_nil _, hink,
        List.forall_mem_nil _, ?_⟩
      rw [List.nil_append, List.append_nil]
      exact htext
    · rintro ⟨front, path, mid, operator, inner, literal, back, hleads, -, ⟨c, hc, -⟩, -, htext⟩
      refine accepted_of_rest hleads htext ?_ hline
      apply List.ne_nil_of_mem (a := c)
      exact List.mem_append_right _ (List.mem_append_left _ hc)
    · intro path operator raw hmatch front path' mid rest hleads htext hstands
      have haccepted : PassesCheck u loads e := by
        rw [passesCheck_iff_match, hmatch]
        rfl
      obtain ⟨other, hother⟩ := hstands
      obtain ⟨longest, hlongest⟩ := Operator.exists_longestAt hother
      obtain ⟨tail, rfl⟩ := hlongest.1
      obtain ⟨c, hc, -⟩ := literal_of_accepted hleads htext haccepted hfalse
      have hsome := (match?_literal_isSome (line_of_expression htext hline)).mpr
        (List.ne_nil_of_mem hc)
      obtain ⟨groups, hgroups⟩ := Option.isSome_iff_exists.mp hsome
      -- the longest operator has a literal after it, so it is the one that is taken
      rw [htext, match?_at_operator hleads hlongest.1, match?_operator hlongest hgroups] at hmatch
      injection hmatch with hmatch
      injection hmatch with _ hmatch
      injection hmatch with hoperator _
      rw [← hoperator, Operator.of_text_text]
      exact hlongest

/-- A false literal ends in a blank or in `=`. -/
theorem FalseLiteral.last {u : PyStr.Unicode} {text : List Char} (h : FalseLiteral u text) :
    ∀ c ∈ text.getLast?, PyStr.isspace c = true ∨ c = '=' := by
  obtain ⟨front, path, mid, operator, back, hleads, hback, rfl, hcase⟩ := h
  unfold expression_text
  intro c hc
  have hne : operator.text.toList ++ back ≠ [] := by
    cases operator <;> exact List.cons_ne_nil _ _
  have hmid : mid ++ (operator.text.toList ++ back) ≠ [] := List.append_ne_nil_of_right_ne_nil _ hne
  rw [List.getLast?_append_of_ne_nil _ (List.append_ne_nil_of_right_ne_nil _ hmid),
    List.getLast?_append_of_ne_nil _ hmid, List.getLast?_append_of_ne_nil _ hne] at hc
  by_cases hne : back = []
  · rw [hne, List.append_nil] at hc
    have hcase := hcase.resolve_left fun h => h hne
    rcases hcase with rfl | rfl <;> cases hc <;> exact Or.inr rfl
  · rw [List.getLast?_append_of_ne_nil _ hne] at hc
    exact Or.inl (hback c (List.mem_of_mem_getLast? hc))

theorem condition_grammar_exact_at_least_one :
    '\n' ∉ "x >= 1".toList ∧ GrammarExact .ascii (fun _ => none) "x >= 1" := by
  have hline : '\n' ∉ "x >= 1".toList := by decide
  refine ⟨hline, (condition_grammar_exact_iff .ascii _ "x >= 1" hline).mpr fun hfalse => ?_⟩
  exact absurd (hfalse.last '1' rfl) (by decide)

/-- A right-hand side of one blank. -/
theorem blank_literal_not_exact :
    '\n' ∉ "x == ".toList ∧ ¬ GrammarExact .ascii (fun _ => none) "x == " := by
  have hline : '\n' ∉ "x == ".toList := by decide
  have hfalse : FalseLiteral .ascii "x == ".toList :=
    ⟨[], ['x'], [' '], .eq, [' '],
      ⟨by simp, by simp, List.forall_mem_singleton.mpr rfl, List.forall_mem_singleton.mpr rfl⟩,
      List.forall_mem_singleton.mpr rfl, by decide, by decide⟩
  exact ⟨hline, fun hexact => hexact.missing_rejected hfalse.missingRhs (hfalse.accepted hline)⟩

/-! ## Printed values -/

/-- The value at the end of a path, if every step of it is there. -/
def Json.find_path : List String → Json → Option Json
  | [], value => some value
  | key :: keys, .obj members => (members.lookup key).bind (Json.find_path keys)
  | _ :: _, _ => none

theorem follow_null (parts : List String) : follow parts .null = .null := by
  cases parts <;> rfl

/-- `_resolve_path` gives `None` where the path breaks off. -/
theorem follow_eq_find_path (parts : List String) (value : Json) :
    follow parts value = (value.find_path parts).getD .null := by
  induction parts generalizing value with
  | nil => rfl
  | cons part parts ih =>
      cases value with
      | obj members =>
          rw [follow, Json.find_path]
          unfold JsonObject.get
          cases members.lookup part with
          | none => exact follow_null parts
          | some v => exact ih v
      | _ => rfl

section Printed

variable {u : PyStr.Unicode}

theorem word_ne_dot {c : Char} (h : u.word c = true) : c ≠ '.' := by
  rintro rfl
  rw [u.word_ascii (by decide)] at h
  exact absurd h (by decide)

theorem intercalate_ne_nil {segments : List (List Char)} (hne : segments ≠ [])
    (h : ∀ s ∈ segments, s ≠ []) : ['.'].intercalate segments ≠ [] := by
  cases segments with
  | nil => exact absurd rfl hne
  | cons s segments =>
      have hs := h s List.mem_cons_self
      cases segments with
      | nil =>
          rw [List.intercalate_singleton]
          exact hs
      | cons s' segments =>
          rw [List.intercalate_cons_cons, List.append_assoc]
          exact List.append_ne_nil_of_left_ne_nil hs _

theorem path_char_segments {segments : List (List Char)}
    (h : ∀ s ∈ segments, ∀ c ∈ s, u.word c = true) :
    ∀ c ∈ ['.'].intercalate segments, path_char u c = true := by
  intro c hc
  unfold path_char
  rcases PyStr.mem_join hc with hc | ⟨s, hs, hc⟩
  · rw [List.mem_singleton.mp hc, beq_self_eq_true, Bool.or_true]
  · rw [h s hs c hc, Bool.true_or]

/-- A path of its segments. -/
theorem resolve_path_segments {segments : List (List Char)} (hne : segments ≠ [])
    (hword : ∀ s ∈ segments, '.' ∉ s) (data : JsonObject) :
    resolve_path data (['.'].intercalate segments)
      = follow (segments.map String.ofList) (.obj data) := by
  unfold resolve_path path_parts
  rw [List.splitOn_intercalate '.' hword hne]

/-- A literal that begins and ends with no blank is read as it stands. -/
theorem parse_literal_of_loads {loads : String → Option Json} {raw : List Char} {v : Json}
    (hsolid : Solid PyStr.isspace raw) (hloads : loads (String.ofList raw) = some v) :
    parse_literal loads raw = v := by
  unfold parse_literal
  rw [PyStr.strip_of_ends hsolid.head hsolid.last]
  dsimp only
  rw [hloads]

/-- A comparison fails exactly where an order is asked for and there is none. `==` and
`!=` are defined for any two values; `<` and its like raise a `TypeError` where Python has
no order. -/
theorem Operator.apply_error_iff (operator : Operator) (left right : Json) :
    (∃ text, operator.apply left right = .error text) ↔
      operator ≠ .eq ∧ operator ≠ .ne ∧ ∃ types, left.py_order right = .error types := by
  by_cases heq : operator = .eq
  · subst heq
    constructor
    · rintro ⟨text, happly⟩
      cases happly
    · intro h
      exact absurd rfl h.1
  by_cases hne : operator = .ne
  · subst hne
    constructor
    · rintro ⟨text, happly⟩
      cases happly
    · intro h
      exact absurd rfl h.2.1
  cases horder : left.py_order right with
  | ok o =>
      have happly : operator.apply left right = .ok (operator.holds o) := by
        unfold Operator.apply
        split
        · exact absurd rfl heq
        · exact absurd rfl hne
        · rw [horder]
      rw [happly]
      constructor
      · rintro ⟨text, h⟩
        cases h
      · rintro ⟨-, -, types, h⟩
        cases h
  | error types =>
      have happly : operator.apply left right = .error (operator.order_error types) := by
        unfold Operator.apply
        split
        · exact absurd rfl heq
        · exact absurd rfl hne
        · rw [horder]
      exact ⟨fun _ => ⟨heq, hne, types, rfl⟩, fun _ => ⟨_, happly⟩⟩

/-- A failure of the comparison is an `evaluation_error`. -/
theorem mapError_evaluation_error (r : Except String Bool) :
    (∃ err : AppError, r.mapError evaluation_error = .error err ∧ err.code = "evaluation_error") ↔
      ∃ text, r = .error text := by
  cases r with
  | ok b =>
      constructor
      · rintro ⟨err, h, -⟩
        cases h
      · rintro ⟨text, h⟩
        cases h
  | error text => exact ⟨fun _ => ⟨text, rfl⟩, fun _ => ⟨evaluation_error text, rfl, rfl⟩⟩

end Printed

/-- **Conditions mean what they say.** A path of segments of word characters, an operator
and a dumped value, with spaces and tabs around them, compare what the path leads to with
the value. The comparison fails exactly where the two have no order and the operator asks
for it. The pattern takes the expression apart into the path and the text of the value
([`match?_expression`]), because a dumped value begins with no `=`, begins and ends with
no blank, and has no line break. The path has no empty segment, so splitting it at its
dots gives the segments back. -/
theorem condition_expression_meaning (u : PyStr.Unicode) (loads : String → Option Json)
    (float_repr : ℚ → List Char) (segments : List (List Char)) (operator : Operator) (v : Json)
    (front mid inner back : List Char) (data : JsonObject) (hsegments : segments ≠ [])
    (hword : ∀ s ∈ segments, s ≠ [] ∧ ∀ c ∈ s, u.word c = true)
    (hblank : ∀ part ∈ [front, mid, inner, back], ∀ c ∈ part, c = ' ' ∨ c = '\t')
    (hfloat : v.float_free = true)
    (hloads : loads (String.ofList (dumps float_repr v)) = some v) :
    let left := ((Json.obj data).find_path (segments.map String.ofList)).getD .null
    let evaluated := evaluate_condition_expression u loads (String.ofList
      (expression_text front (['.'].intercalate segments) mid operator
        (inner ++ (dumps float_repr v ++ back)))) data
    evaluated = (operator.apply left v).mapError evaluation_error ∧
    ((∃ err, evaluated = .error err ∧ err.code = "evaluation_error") ↔
      operator ≠ .eq ∧ operator ≠ .ne ∧ ∃ types, left.py_order v = .error types) := by
  intro left evaluated
  have hspace : ∀ part ∈ [front, mid, inner, back], ∀ c ∈ part, PyStr.isspace c = true := by
    intro part hpart c hc
    rcases hblank part hpart c hc with rfl | rfl <;> decide
  have hleads : Leads u front (['.'].intercalate segments) mid :=
    ⟨hspace front (by simp), intercalate_ne_nil hsegments fun s hs => (hword s hs).1,
      path_char_segments fun s hs => (hword s hs).2, hspace mid (by simp)⟩
  have hline : '\n' ∉ dumps float_repr v ++ back := by
    intro hmem
    rcases List.mem_append.mp hmem with hmem | hmem
    · exact absurd (dumps_printable float_repr v hfloat _ hmem) (by decide)
    · exact absurd (hblank back (by simp) _ hmem) (by decide)
  -- the parts that the pattern takes are the ones that were put together
  have hmatch : match? (COMPARISON_RE u) (expression_text front (['.'].intercalate segments) mid
      operator (inner ++ (dumps float_repr v ++ back)))
      = some [['.'].intercalate segments, operator.text.toList, dumps float_repr v] :=
    match?_expression hleads (hspace inner (by simp)) (dumps_solid hfloat) (dumps_head hfloat)
      (hspace back (by simp)) hline
  -- no segment is split further
  have hdot : ∀ s ∈ segments, '.' ∉ s := by
    intro s hs hdot
    exact word_ne_dot ((hword s hs).2 '.' hdot) rfl
  have hevaluated : evaluated = (operator.apply left v).mapError evaluation_error := by
    rw [← String.toList_ofList (l := expression_text ..)] at hmatch
    calc evaluated
        = (operator.apply (resolve_path data (['.'].intercalate segments))
            (parse_literal loads (dumps float_repr v))).mapError evaluation_error :=
          evaluate_of_match data hmatch
      _ = (operator.apply left v).mapError evaluation_error := by
          rw [parse_literal_of_loads (dumps_solid hfloat) hloads,
            resolve_path_segments hsegments hdot, follow_eq_find_path]
  refine ⟨hevaluated, ?_⟩
  rw [hevaluated, mapError_evaluation_error, Operator.apply_error_iff]

/-- What `json.loads` reads a text of the expression below as. -/
def loads_operators : String → Option Json := fun text =>
  if text = "\">= 1\"" then some (.str ">= 1") else none

/-- A string that holds an operator and a blank, against a value that is not there. -/
theorem condition_expression_meaning_missing :
    loads_operators (String.ofList (dumps (fun _ => []) (.str ">= 1"))) = some (.str ">= 1") ∧
    evaluate_condition_expression .ascii loads_operators " input.x < \">= 1\"\t"
        [("input", .obj [])]
      = .error (evaluation_error
          "'<' not supported between instances of 'NoneType' and 'str'") := by
  have hloads : loads_operators (String.ofList (dumps (fun _ => []) (.str ">= 1")))
      = some (.str ">= 1") := by decide
  have hword : ∀ s ∈ ["input".toList, "x".toList],
      s ≠ [] ∧ ∀ c ∈ s, PyStr.Unicode.ascii.word c = true := by
    intro s hs
    rcases List.mem_pair.mp hs with rfl | rfl
    · exact ⟨by decide, List.all_iff_forall_prop.mp (by decide)⟩
    · exact ⟨by decide, List.all_iff_forall_prop.mp (by decide)⟩
  refine ⟨hloads, ?_⟩
  exact (condition_expression_meaning .ascii loads_operators (fun _ => [])
    ["input".toList, "x".toList] .lt (.str ">= 1") [' '] [' '] [' '] ['\t'] [("input", .obj [])]
    (by simp) hword (by simp) (by decide) hloads).1

end EventFlow
