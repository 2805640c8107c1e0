import StepTrace.Regex.Reader

/-!
# What the reader of patterns reads

All reading goes by tokens, and no function of the reader looks further ahead than the next token.
So what a function reads is a list of tokens (`Spans`), and a function that keeps to the text gives
the same wherever these tokens stand, as long as the same token follows them (`Textual`).
-/

namespace StepTrace.Regex

/-- What is checked of each of a few characters holds of all of them. -/
theorem forall_mem_of_all {s : List Char} {p : Char → Prop} [DecidablePred p]
    (h : s.all (fun c => decide (p c)) = true) : ∀ c ∈ s, p c := fun c hc =>
  of_decide_eq_true (List.all_eq_true.mp h c hc)

/-! ## Texts of tokens -/

/-- The text of tokens. -/
def written (ts : List Token) : List Char :=
  ts.flatMap Token.chars

@[simp] theorem written_nil : written [] = [] :=
  rfl

@[simp] theorem written_cons (t : Token) (ts : List Token) :
    written (t :: ts) = t.chars ++ written ts :=
  rfl

@[simp] theorem written_append (ts us : List Token) :
    written (ts ++ us) = written ts ++ written us :=
  List.flatMap_append

@[simp] theorem written_map_plain (cs : List Char) : written (cs.map .plain) = cs := by
  induction cs with
  | nil => rfl
  | cons c cs ih => rw [List.map_cons, written_cons, ih]; rfl

/-- The tokens lead from one text to the other, and no backslash is left alone. -/
structure Spans (ts : List Token) (s s₁ : List Char) : Prop where
  eq : s = written ts ++ s₁
  tokens : ∀ t ∈ ts, t ≠ .plain '\\'
  left : s₁ ≠ ['\\']

/-- Two texts begin with the same token, or both are empty. -/
def SameToken (s s' : List Char) : Prop :=
  (nextToken? s).map (·.1) = (nextToken? s').map (·.1)

variable {t : Token} {ts us : List Token} {s s' s₁ s₂ : List Char}

theorem nextToken?_chars (ht : t ≠ .plain '\\') (s : List Char) :
    nextToken? (t.chars ++ s) = some (t, s) := by
  cases t with
  | plain c =>
    have hc : c ≠ '\\' := fun h => ht (h ▸ rfl)
    unfold nextToken?
    split <;> simp_all [Token.chars]
  | escaped c => rfl

theorem nextToken?_eq_some (hs : s ≠ ['\\']) (h : nextToken? s = some (t, s₁)) :
    s = t.chars ++ s₁ ∧ t ≠ .plain '\\' := by
  unfold nextToken? at h
  split at h
  · cases h
  · cases h
    exact ⟨rfl, by simp⟩
  · rename_i c rest hescape
    cases h
    refine ⟨rfl, fun heq => ?_⟩
    obtain rfl : c = '\\' := by simpa using heq
    cases s₁ with
    | nil => exact hs rfl
    | cons d rest => exact hescape d rest rfl rfl

theorem nextToken?_eq_none (h : nextToken? s = none) : s = [] := by
  unfold nextToken? at h
  split at h <;> simp_all

theorem Spans.nil (hs : s ≠ ['\\']) : Spans [] s s :=
  ⟨rfl, by simp, hs⟩

theorem Spans.append (h₁ : Spans ts s s₁) (h₂ : Spans us s₁ s₂) : Spans (ts ++ us) s s₂ where
  eq := by rw [h₁.eq, h₂.eq, written_append, List.append_assoc]
  tokens := by
    intro t ht
    exact (List.mem_append.mp ht).elim (h₁.tokens t) (h₂.tokens t)
  left := h₂.left

theorem Spans.cons (hs : s ≠ ['\\']) (h : nextToken? s = some (t, s₁)) (h₂ : Spans ts s₁ s₂) :
    Spans (t :: ts) s s₂ := by
  obtain ⟨heq, ht⟩ := nextToken?_eq_some hs h
  exact ⟨by rw [heq, h₂.eq, written_cons, List.append_assoc], by simpa [ht] using h₂.tokens, h₂.left⟩

theorem Spans.one (hs : s ≠ ['\\']) (h : nextToken? s = some (t, s₁)) (h₁ : s₁ ≠ ['\\']) :
    Spans [t] s s₁ :=
  .cons hs h (.nil h₁)

theorem Spans.nextToken? (h : Spans (t :: ts) s s₁) :
    nextToken? s = some (t, written ts ++ s₁) := by
  rw [h.eq, written_cons, List.append_assoc]
  exact nextToken?_chars (h.tokens t (by simp)) _

theorem Spans.tail (h : Spans (t :: ts) s s₁) : Spans ts (written ts ++ s₁) s₁ :=
  ⟨rfl, fun u hu => h.tokens u (List.mem_cons_of_mem _ hu), h.left⟩

theorem Spans.ne_lone (h : Spans ts s s₁) : s ≠ ['\\'] := by
  cases ts with
  | nil => exact h.eq ▸ h.left
  | cons t ts =>
    rintro rfl
    have hnext := h.nextToken?
    obtain rfl : .plain '\\' = t := by
      simpa [StepTrace.Regex.nextToken?] using congrArg (Option.map Prod.fst) hnext
    exact h.tokens _ (by simp) rfl

theorem length_le_written (ts : List Token) : ts.length ≤ (written ts).length := by
  induction ts with
  | nil => simp
  | cons t ts ih => cases t <;> simp [Token.chars] <;> omega

theorem Spans.length_le (h : Spans ts s s₁) : ts.length + s₁.length ≤ s.length := by
  have := length_le_written ts
  rw [h.eq, List.length_append]
  omega

theorem SameToken.ne_lone (h : SameToken s s') (hs : s ≠ ['\\']) : s' ≠ ['\\'] := by
  rintro rfl
  have hlone : (nextToken? s).map (·.1) = some (.plain '\\') := h
  obtain ⟨⟨t, s₁⟩, hnext, rfl⟩ := Option.map_eq_some_iff.mp hlone
  exact (nextToken?_eq_some hs hnext).2 rfl

theorem SameToken.append (ht : ∀ t ∈ ts, t ≠ .plain '\\') (h : SameToken s s') :
    SameToken (written ts ++ s) (written ts ++ s') := by
  cases ts with
  | nil => exact h
  | cons t ts =>
    have hne := ht t (by simp)
    simp only [SameToken, written_cons, List.append_assoc, nextToken?_chars hne, Option.map_some]

/-! ## Runs -/

namespace Reader

variable {α β : Type} {r r₁ r₂ : Reading}

theorem run_bind (f : Reader α) (g : α → Reader β) :
    (f >>= g).run r = (f.run r).bind fun out => (g out.1).run out.2 :=
  rfl

theorem run_pure (a : α) : (pure a : Reader α).run r = .ok (a, r) :=
  rfl

theorem run_get : (get : Reader Reading).run r = .ok (r, r) :=
  rfl

theorem run_modify (f : Reading → Reading) : (modify f : Reader Unit).run r = .ok ((), f r) :=
  rfl

theorem run_refuse : (refuse : Reader α).run r = .error .malformed :=
  rfl

theorem run_peek : peek.run r = .ok ((nextToken? r.rest).map (·.1), r) :=
  rfl

theorem bind_ok (a : α) (f : α → Except Refusal β) : (Except.ok a).bind f = f a :=
  rfl

theorem bind_error (e : Refusal) (f : α → Except Refusal β) :
    (Except.error e : Except Refusal α).bind f = .error e :=
  rfl

theorem run_bind_eq_ok {f : Reader α} {g : α → Reader β} {b : β} :
    (f >>= g).run r = .ok (b, r₂) ↔
      ∃ a r₁, f.run r = .ok (a, r₁) ∧ (g a).run r₁ = .ok (b, r₂) := by
  rw [run_bind]
  cases h : f.run r with
  | error e => simp [bind_error]
  | ok out =>
    rw [bind_ok]
    exact ⟨fun hg => ⟨_, _, rfl, hg⟩, fun ⟨_, _, heq, hg⟩ => by cases heq; exact hg⟩

theorem run_goOn (h : s ≠ ['\\']) : (goOn s).run r = .ok ((), { r with rest := s }) := by
  simp only [goOn, h, ↓reduceIte]
  rfl

theorem run_goOn_lone : (goOn ['\\']).run r = .error .malformed :=
  rfl

theorem run_token_of_some (h : nextToken? r.rest = some (t, s)) (hs : s ≠ ['\\']) :
    token.run r = .ok (some t, { r with rest := s }) := by
  simp only [token, run_bind, run_get, bind_ok, h, run_goOn hs, run_pure]

theorem run_token_of_none (h : nextToken? r.rest = none) : token.run r = .ok (none, r) := by
  simp only [token, run_bind, run_get, bind_ok, h, run_pure]

theorem run_token_lone (h : nextToken? r.rest = some (t, ['\\'])) :
    token.run r = .error .malformed := by
  simp only [token, run_bind, run_get, bind_ok, h, run_goOn_lone, bind_error]

/-- The token comes next and is taken. -/
def Takes (t : Token) (r r₁ : Reading) : Prop :=
  ∃ s, nextToken? r.rest = some (t, s) ∧ s ≠ ['\\'] ∧ r₁ = { r with rest := s }

/-- The token that comes next. -/
def next? (r : Reading) : Option Token :=
  (nextToken? r.rest).map (·.1)

theorem Takes.next? (h : Takes t r r₁) : next? r = some t := by
  obtain ⟨s, hnext, -⟩ := h
  simp [Reader.next?, hnext]

theorem Takes.spans (hr : r.rest ≠ ['\\']) (h : Takes t r r₁) : Spans [t] r.rest r₁.rest := by
  obtain ⟨s, hnext, hs, rfl⟩ := h
  exact .one hr hnext hs

theorem takes_of {s : List Char} (ht : t ≠ .plain '\\') (hs : s ≠ ['\\'])
    (h : r.rest = t.chars ++ s) : Takes t r { r with rest := s } :=
  ⟨s, by rw [h]; exact nextToken?_chars ht s, hs, rfl⟩

theorem Takes.run_token (h : Takes t r r₁) : token.run r = .ok (some t, r₁) := by
  obtain ⟨s, hnext, hs, rfl⟩ := h
  exact run_token_of_some hnext hs

theorem run_token_eq_ok {found : Option Token} :
    token.run r = .ok (found, r₁) ↔
      (found = none ∧ next? r = none ∧ r₁ = r) ∨ ∃ t, found = some t ∧ Takes t r r₁ := by
  constructor
  · intro h
    cases hnext : nextToken? r.rest with
    | none =>
      rw [run_token_of_none hnext] at h
      cases h
      exact .inl ⟨rfl, by simp [next?, hnext], rfl⟩
    | some next =>
      obtain ⟨t, s⟩ := next
      by_cases hs : s = ['\\']
      · subst hs
        rw [run_token_lone hnext] at h
        cases h
      · rw [run_token_of_some hnext hs] at h
        cases h
        exact .inr ⟨t, rfl, s, hnext, hs, rfl⟩
  · rintro (⟨rfl, hnone, rfl⟩ | ⟨t, rfl, h⟩)
    · exact run_token_of_none (by simpa [next?] using hnone)
    · exact h.run_token

theorem run_accept_eq_ok {c : Char} {b : Bool} :
    (accept c).run r = .ok (b, r₁) ↔
      (b = true ∧ Takes (.plain c) r r₁) ∨
        (b = false ∧ next? r ≠ some (.plain c) ∧ r₁ = r) := by
  simp only [accept, run_bind, run_peek, bind_ok]
  change (if next? r = some (.plain c) then _ else _ : Reader Bool).run r = _ ↔ _
  by_cases hc : next? r = some (.plain c)
  · rw [if_pos hc]
    simp only [run_bind_eq_ok, run_token_eq_ok, run_pure, Except.ok.injEq, Prod.mk.injEq]
    constructor
    · rintro ⟨_, _, ⟨-, hnone, -⟩ | ⟨t, -, ht⟩, rfl, rfl⟩
      · simp [hc] at hnone
      · obtain rfl : t = .plain c := Option.some.inj (ht.next?.symm.trans hc)
        exact .inl ⟨rfl, ht⟩
    · rintro (⟨rfl, ht⟩ | ⟨-, hne, -⟩)
      · exact ⟨_, _, .inr ⟨_, rfl, ht⟩, rfl, rfl⟩
      · exact absurd hc hne
  · rw [if_neg hc]
    simp only [run_pure, Except.ok.injEq, Prod.mk.injEq]
    constructor
    · rintro ⟨rfl, rfl⟩
      exact .inr ⟨rfl, hc, rfl⟩
    · rintro (⟨-, ht⟩ | ⟨rfl, -, rfl⟩)
      · exact absurd ht.next? hc
      · exact ⟨rfl, rfl⟩

theorem run_expect_eq_ok {c : Char} {u : Unit} :
    (expect c).run r = .ok (u, r₁) ↔ Takes (.plain c) r r₁ := by
  simp only [expect, run_bind_eq_ok, run_accept_eq_ok]
  constructor
  · rintro ⟨b, r₂, ⟨rfl, ht⟩ | ⟨rfl, -, -⟩, h⟩
    · have h : Except.ok ((), r₂) = Except.ok (u, r₁) := h
      cases h
      exact ht
    · cases h
  · intro ht
    exact ⟨true, r₁, .inl ⟨rfl, ht⟩, rfl⟩

end Reader

end StepTrace.Regex
