import StepTrace.Proofs.Regex.Tokens

/-!
# Functions of the reader that keep to the text

Escapes, classes and repetition counts are read from the text alone.  `Textual P Q f` says so of
`f`: it reads tokens that satisfy `P` and changes nothing else; and if its result satisfies `Q` it
has the same result wherever these tokens stand in front of the same token.  The property is closed
under sequencing, so that it is proved of a function from those that it is made of.
-/

namespace StepTrace.Regex

/-- A character that means nothing to the brackets of a pattern. -/
def Token.IsHarmless (t : Token) : Prop :=
  ∃ c, t = .plain c ∧ c ∉ ['\\', '(', ')', '[', ']', '|', '#']

namespace Reader

variable {α β : Type} {S : α → List Token → Prop} {P : Token → Prop} {Q : α → Prop} {f : Reader α}

/-- The function reads tokens that stand to its result as `S` says, and changes nothing but the text
that is left.  If the result satisfies `Q` it is the same wherever these tokens stand in front of
the same token. -/
def Shaped (S : α → List Token → Prop) (Q : α → Prop) (f : Reader α) : Prop :=
  ∀ ⦃r x r₁⦄, r.rest ≠ ['\\'] → f.run r = .ok (x, r₁) →
    ∃ ts, Spans ts r.rest r₁.rest ∧ S x ts ∧ r₁ = { r with rest := r₁.rest } ∧
      (Q x → ∀ (r' : Reading) s', r'.rest = written ts ++ s' → SameToken r₁.rest s' →
        f.run r' = .ok (x, { r' with rest := s' }))

/-- The function is shaped by its tokens, all of which satisfy `P`. -/
abbrev Textual (P : Token → Prop) (Q : α → Prop) (f : Reader α) : Prop :=
  Shaped (fun _ ts => ∀ t ∈ ts, P t) Q f

/-- Nothing is asked of the result. -/
abbrev Always (_ : α) : Prop := True

theorem shaped_pure {a : α} (h : S a []) : Shaped S Q (pure a) := by
  intro r x r₁ hr h
  cases h
  refine ⟨[], .nil hr, h, rfl, fun _ r' s' hs' _ => ?_⟩
  obtain rfl : r'.rest = s' := hs'
  rfl

theorem shaped_refuse : Shaped S Q (refuse : Reader α) := by
  intro r x r₁ _ h
  cases h

theorem shaped_refuse_bind {g : β → Reader α} : Shaped S Q (refuse >>= g) := by
  intro r x r₁ _ h
  cases h

theorem shaped_throw_bind (e : Refusal) {g : β → Reader α} :
    Shaped S Q ((throw e : Reader β) >>= g) := by
  intro r x r₁ _ h
  cases h

theorem Shaped.bind {S' : β → List Token → Prop} {Q' : β → Prop} {g : α → Reader β}
    (hf : Shaped S Always f)
    (hg : ∀ a ts, S a ts → Shaped (fun b us => S' b (ts ++ us)) Q' (g a)) :
    Shaped S' Q' (f >>= g) := by
  intro r x r₂ hr h
  obtain ⟨a, r₁, hfirst, hsecond⟩ := run_bind_eq_ok.mp h
  obtain ⟨ts, hspans₁, hts, hr₁, hagain₁⟩ := hf hr hfirst
  obtain ⟨us, hspans₂, hus, hr₂, hagain₂⟩ := hg a ts hts hspans₁.left hsecond
  refine ⟨ts ++ us, hspans₁.append hspans₂, hus, by rw [hr₂, hr₁], fun hx r' s' hs' hsame => ?_⟩
  have hmiddle := hsame.append hspans₂.tokens
  rw [← hspans₂.eq] at hmiddle
  rw [written_append, List.append_assoc] at hs'
  exact run_bind_eq_ok.mpr ⟨a, _, hagain₁ trivial r' _ hs' hmiddle, hagain₂ hx _ s' rfl hsame⟩

theorem Shaped.weaken {S' : α → List Token → Prop} {Q' : α → Prop} (h : Shaped S Q f)
    (hS : ∀ x ts, S x ts → S' x ts) (hQ : ∀ x, Q' x → Q x) : Shaped S' Q' f := by
  intro r x r₁ hr hrun
  obtain ⟨ts, hspans, hts, hr₁, hagain⟩ := h hr hrun
  exact ⟨ts, hspans, hS x ts hts, hr₁, fun hx => hagain (hQ x hx)⟩

theorem shaped_ite {c : Prop} [Decidable c] {g : Reader α} (hf : c → Shaped S Q f)
    (hg : ¬c → Shaped S Q g) : Shaped S Q (if c then f else g) := by
  split
  · exact hf ‹_›
  · exact hg ‹_›

theorem textual_pure (a : α) : Textual P Q (pure a) :=
  shaped_pure (by simp)

theorem Textual.bind {Q' : β → Prop} {g : α → Reader β} (hf : Textual P Always f)
    (hg : ∀ a, Textual P Q' (g a)) : Textual P Q' (f >>= g) :=
  Shaped.bind hf fun a _ hts => (hg a).weaken
    (fun _ _ hus t ht => (List.mem_append.mp ht).elim (hts t) (hus t)) fun _ => id

theorem textual_ite {c : Prop} [Decidable c] {g : Reader α} (hf : Textual P Q f)
    (hg : Textual P Q g) : Textual P Q (if c then f else g) :=
  shaped_ite (fun _ => hf) fun _ => hg

/-- A function with fuel that needs no more of it than there is text is shaped as it is with any
fuel. -/
theorem shaped_fueled {f : Nat → Reader α} (hshaped : ∀ n, Shaped S Always (f n))
    (hfuel : ∀ m n ⦃r x r₁⦄, r.rest ≠ ['\\'] → r.rest.length < n →
      (f m).run r = .ok (x, r₁) → (f n).run r = .ok (x, r₁)) :
    Shaped S Always (do let r ← get; f (r.rest.length + 1)) := by
  intro r x r₁ hr h
  change (f (r.rest.length + 1)).run r = .ok (x, r₁) at h
  obtain ⟨ts, hspans, hts, hr₁, -⟩ := hshaped _ hr h
  refine ⟨ts, hspans, hts, hr₁, fun _ r' s' hs' hsame => ?_⟩
  change (f (r'.rest.length + 1)).run r' = _
  -- both runs are runs with the fuel of the two together
  let fuel := r.rest.length + r'.rest.length + 1
  obtain ⟨us, hspans', -, -, hagain⟩ := hshaped fuel hr (hfuel _ fuel hr (by omega) h)
  have hwritten : written us = written ts :=
    List.append_cancel_right (hspans'.eq.symm.trans hspans.eq)
  refine hfuel fuel _ ?_ (Nat.lt_succ_self _) (hagain trivial r' s' (hwritten ▸ hs') hsame)
  exact Spans.ne_lone ⟨hs', hspans.tokens, hsame.ne_lone hspans.left⟩

/-! ## Single tokens -/

theorem shaped_token :
    Shaped (fun found ts => ts = found.toList) Always token := by
  intro r x r₁ hr h
  obtain ⟨rfl, hnone, rfl⟩ | ⟨t, rfl, ht⟩ := run_token_eq_ok.mp h
  · refine ⟨[], .nil hr, rfl, rfl, fun _ r' s' hs' hsame => ?_⟩
    obtain rfl : r'.rest = s' := hs'
    exact run_token_eq_ok.mpr (.inl ⟨rfl, hsame.symm.trans hnone, rfl⟩)
  · have hspans := ht.spans hr
    refine ⟨[t], hspans, rfl, ?_, fun _ r' s' hs' hsame => ?_⟩
    · obtain ⟨s, -, -, rfl⟩ := ht
      rfl
    · refine run_token_eq_ok.mpr (.inr ⟨t, rfl, takes_of ?_ (hsame.ne_lone hspans.left) ?_⟩)
      · exact hspans.tokens t (by simp)
      · simpa using hs'

theorem shaped_accept (c : Char) :
    Shaped (fun taken ts => ts = if taken then [.plain c] else []) Always (accept c) := by
  intro r x r₁ hr h
  obtain ⟨rfl, ht⟩ | ⟨rfl, hne, rfl⟩ := run_accept_eq_ok.mp h
  · have hspans := ht.spans hr
    refine ⟨[.plain c], hspans, rfl, ?_, fun _ r' s' hs' hsame => ?_⟩
    · obtain ⟨s, -, -, rfl⟩ := ht
      rfl
    · refine run_accept_eq_ok.mpr (.inl ⟨rfl, takes_of ?_ (hsame.ne_lone hspans.left) ?_⟩)
      · exact hspans.tokens _ (by simp)
      · simpa using hs'
  · refine ⟨[], .nil hr, rfl, rfl, fun _ r' s' hs' hsame => ?_⟩
    obtain rfl : r'.rest = s' := hs'
    exact run_accept_eq_ok.mpr (.inr ⟨rfl, fun h => hne (hsame.trans h), rfl⟩)

theorem textual_accept {c : Char} (hc : P (.plain c)) : Textual P Always (accept c) :=
  (shaped_accept c).weaken (by rintro taken ts rfl; cases taken <;> simp [hc]) fun _ => id

/-! ## Runs of characters -/

/-- No further character that passes the test comes next. -/
def Stops (test : Char → Bool) (s : List Char) : Prop :=
  ∀ c s₁, nextToken? s = some (.plain c, s₁) → test c = false

theorem Stops.sameToken {test : Char → Bool} {s s' : List Char} (h : Stops test s)
    (hsame : SameToken s s') : Stops test s' := by
  intro c s₁ hnext
  have hplain : (nextToken? s).map (·.1) = some (.plain c) := hsame.trans (by simp [hnext])
  obtain ⟨⟨t, s₂⟩, hs, rfl⟩ := Option.map_eq_some_iff.mp hplain
  exact h c s₂ hs

theorem not_stops {test : Char → Bool} {s : List Char} (h : ¬Stops test s) :
    ∃ c s₁, nextToken? s = some (.plain c, s₁) ∧ test c = true := by
  simpa [Stops] using h

theorem run_takeWhile_stop {test : Char → Bool} {r : Reading} (h : Stops test r.rest)
    (limit : Nat) : (takeWhile test limit).run r = .ok ([], r) := by
  cases limit with
  | zero => rfl
  | succ limit =>
    simp only [takeWhile, run_bind, run_peek, bind_ok]
    cases hnext : nextToken? r.rest with
    | none => rfl
    | some next =>
      obtain ⟨t, s⟩ := next
      cases t with
      | escaped c => rfl
      | plain c => simp only [Option.map_some, h c s hnext, Bool.false_eq_true, ↓reduceIte, run_pure]

theorem run_takeWhile_take {test : Char → Bool} {c : Char} {r : Reading} (limit : Nat)
    (hc : test c = true) (hnext : next? r = some (.plain c)) :
    (takeWhile test (limit + 1)).run r =
      (do let _ ← token; return c :: (← takeWhile test limit)).run r := by
  simp only [takeWhile, run_bind, run_peek, bind_ok]
  rw [show (nextToken? r.rest).map (·.1) = some (.plain c) from hnext]
  simp only [hc, ↓reduceIte]
  rfl

/-- What is taken are the characters that pass the test, until the limit is reached or another
token comes. -/
theorem run_takeWhile {test : Char → Bool} {limit : Nat} {r r₁ : Reading} {found : List Char}
    (hr : r.rest ≠ ['\\']) (h : (takeWhile test limit).run r = .ok (found, r₁)) :
    Spans (found.map .plain) r.rest r₁.rest ∧ (∀ c ∈ found, test c = true) ∧
      r₁ = { r with rest := r₁.rest } ∧ found.length ≤ limit ∧
      (found.length = limit ∨ Stops test r₁.rest) := by
  induction limit generalizing r found with
  | zero =>
    cases h
    exact ⟨.nil hr, by simp, rfl, by simp, .inl rfl⟩
  | succ limit ih =>
    by_cases hstop : Stops test r.rest
    · rw [run_takeWhile_stop hstop] at h
      cases h
      exact ⟨.nil hr, by simp, rfl, by simp, .inr hstop⟩
    · obtain ⟨c, s, hnext, hc⟩ := not_stops hstop
      have hc' : next? r = some (.plain c) := by simp [next?, hnext]
      rw [run_takeWhile_take limit hc hc'] at h
      simp only [run_bind_eq_ok, run_token_eq_ok, run_pure, Except.ok.injEq, Prod.mk.injEq] at h
      obtain ⟨_, r₂, ⟨-, hnone, -⟩ | ⟨t, -, ht⟩, cs, r₃, hcs, rfl, rfl⟩ := h
      · simp [hc'] at hnone
      · obtain rfl : t = .plain c := Option.some.inj (ht.next?.symm.trans hc')
        have hspans := ht.spans hr
        obtain ⟨htail, htest, hr₃, hle, hend⟩ := ih hspans.left hcs
        refine ⟨hspans.append htail, by simpa [hc] using htest, ?_, by simpa using hle,
          by simpa using hend⟩
        obtain ⟨s', -, -, rfl⟩ := ht
        rw [hr₃]

theorem run_takeWhile_of {test : Char → Bool} {limit : Nat} {r : Reading} {found s : List Char}
    (h : Spans (found.map .plain) r.rest s) (htest : ∀ c ∈ found, test c = true)
    (hend : found.length = limit ∨ found.length ≤ limit ∧ Stops test s) :
    (takeWhile test limit).run r = .ok (found, { r with rest := s }) := by
  induction found generalizing r limit with
  | nil =>
    obtain rfl : r.rest = s := h.eq
    obtain rfl | ⟨-, hstop⟩ := hend
    · rfl
    · exact run_takeWhile_stop hstop limit
  | cons c found ih =>
    obtain ⟨limit, rfl⟩ : ∃ n, limit = n + 1 := ⟨limit - 1, by simp at hend; omega⟩
    have htake : Takes (.plain c) r { r with rest := written (found.map .plain) ++ s } :=
      ⟨_, h.nextToken?, h.tail.ne_lone, rfl⟩
    have hrest := ih (r := { r with rest := written (found.map .plain) ++ s }) h.tail
      (fun d hd => htest d (by simp [hd])) (by simpa using hend)
    rw [run_takeWhile_take limit (htest c (by simp)) htake.next?]
    exact run_bind_eq_ok.mpr ⟨_, _, htake.run_token, run_bind_eq_ok.mpr ⟨_, _, hrest, rfl⟩⟩

theorem textual_takeWhile {test : Char → Bool} (limit : Nat)
    (hP : ∀ c, test c = true → P (.plain c)) : Textual P Always (takeWhile test limit) := by
  intro r found r₁ hr h
  obtain ⟨hspans, htest, hr₁, hle, hend⟩ := run_takeWhile hr h
  refine ⟨_, hspans, ?_, hr₁, fun _ r' s' hs' hsame => ?_⟩
  · intro t ht
    obtain ⟨c, hc, rfl⟩ := List.mem_map.mp ht
    exact hP c (htest c hc)
  · refine run_takeWhile_of ⟨hs', hspans.tokens, hsame.ne_lone hspans.left⟩ htest ?_
    exact hend.imp_right fun hstop => ⟨hle, hstop.sameToken hsame⟩

/-! ## Escapes -/

theorem isHarmless_of {test : Char → Bool}
    (h : ∀ c ∈ ['\\', '(', ')', '[', ']', '|', '#'], test c = false) {c : Char}
    (hc : test c = true) : Token.IsHarmless (.plain c) :=
  ⟨c, rfl, fun hmem => by simp [h c hmem] at hc⟩

theorem textual_hexCode (count : Nat) : Textual Token.IsHarmless Always (hexCode count) := by
  unfold hexCode
  have htest : ∀ c, isHex c = true → Token.IsHarmless (.plain c) := fun _ =>
    isHarmless_of (forall_mem_of_all (by decide))
  refine (textual_takeWhile count htest).bind fun digits => ?_
  exact textual_ite shaped_refuse_bind (textual_ite shaped_refuse_bind (textual_pure _))

theorem textual_hexEscape {c : Char} {read : Reader Nat} (h : hexEscape? c = some read) :
    Textual Token.IsHarmless Always read := by
  unfold hexEscape? at h
  split at h <;> cases h <;> exact textual_hexCode _

theorem textual_octal (limit : Nat) :
    Textual Token.IsHarmless Always (takeWhile isOctal limit) :=
  textual_takeWhile limit fun _ => isHarmless_of (forall_mem_of_all (by decide))

theorem textual_decimal (limit : Nat) :
    Textual Token.IsHarmless Always (takeWhile Char.isDigit limit) :=
  textual_takeWhile limit fun _ => isHarmless_of (forall_mem_of_all (by decide))

theorem textual_classEscape (flags : Flags) (c : Char) :
    Textual Token.IsHarmless Always (classEscape flags c) := by
  unfold classEscape
  split
  · exact textual_pure _
  split
  · exact textual_pure _
  split
  next read hread => exact (textual_hexEscape hread).bind fun _ => textual_pure _
  split
  · refine (textual_octal 2).bind fun digits => ?_
    exact textual_ite shaped_refuse_bind (textual_pure _)
  · exact textual_ite shaped_refuse_bind (textual_pure _)

end Reader

/-! ## References -/

/-- Does the pattern depend on what a group has captured? -/
def Expr.refers : Expr → Bool
  | empty | one _ | anchor _ => false
  | same _ _ | ifGroup _ _ _ => true
  | seq first second | either first second => first.refers || second.refers
  | group _ body | flagged body | loop _ _ _ body | ahead _ body | behind _ _ body | atomic body =>
    body.refers

/-- Does one of the parts depend on what a group has captured? -/
def refersAny (parts : List Expr) : Bool :=
  parts.any Expr.refers

/-- The item depends on no group. -/
def Reader.Item.IsFree (item : Reader.Item) : Prop :=
  refersAny item.parts = false

namespace Reader

theorem run_closedWidth? (number : Nat) (r : Reading) :
    ∃ width, (closedWidth? number).run r = .ok (width, r) := by
  unfold closedWidth?
  split
  · exact ⟨_, rfl⟩
  · exact ⟨_, rfl⟩

theorem run_checkBehind_eq_ok {number : Nat} {r r₁ : Reading} {u : Unit}
    (h : (checkBehind number).run r = .ok (u, r₁)) : r₁ = r := by
  simp only [checkBehind, run_bind, run_get, bind_ok] at h
  split at h
  · cases h
    rfl
  · obtain ⟨width, hwidth⟩ := run_closedWidth? number r
    rw [run_bind, hwidth, bind_ok] at h
    dsimp only at h
    split at h
    · cases h
    · cases h
      rfl

theorem run_backReference_eq_ok {flags : Flags} {number : Nat} {r r₁ : Reading} {e : Expr}
    (h : (backReference flags number).run r = .ok (e, r₁)) :
    r₁ = r ∧ e = .same number flags.folding := by
  obtain ⟨width, hwidth⟩ := run_closedWidth? number r
  rw [backReference, run_bind, hwidth, bind_ok] at h
  dsimp only at h
  split at h
  · cases h
  · obtain ⟨_, r₂, hcheck, hpure⟩ := run_bind_eq_ok.mp h
    obtain rfl := run_checkBehind_eq_ok hcheck
    cases hpure
    exact ⟨rfl, rfl⟩

theorem textual_backReference (flags : Flags) (number : Nat) :
    Textual P Item.IsFree (do return .ofExpr (← backReference flags number)) := by
  intro r x r₁ hr h
  obtain ⟨e, r₂, hread, hpure⟩ := run_bind_eq_ok.mp h
  obtain ⟨rfl, rfl⟩ := run_backReference_eq_ok hread
  cases hpure
  refine ⟨[], .nil hr, by simp, rfl, fun hfree => ?_⟩
  simp [Item.IsFree, Item.ofExpr, refersAny, Expr.refers] at hfree

/-- Three digits, which are octal, give a character, and two the number of a group. -/
def digitEscape (flags : Flags) (c d : Char) (third : List Char) : Reader Item := do
  match third with
  | [e] =>
    let n := numeral 8 [c, d, e]
    if 0o377 < n then refuse
    return .code flags n
  | _ => return .ofExpr (← backReference flags (numeral 10 [c, d]))

theorem textual_digitEscape (flags : Flags) (c d : Char) (third : List Char) :
    Textual Token.IsHarmless Item.IsFree (digitEscape flags c d third) := by
  unfold digitEscape
  split
  · exact textual_ite shaped_refuse_bind (textual_pure _)
  · exact textual_backReference _ _

theorem textual_numberEscape (flags : Flags) (c : Char) :
    Textual Token.IsHarmless Item.IsFree (numberEscape flags c) := by
  unfold numberEscape
  refine (textual_decimal 1).bind fun second => ?_
  split
  next d =>
    split
    · exact (textual_octal 1).bind (textual_digitEscape flags c d)
    · exact (textual_pure _).bind (textual_digitEscape flags c d)
  next => exact textual_backReference _ _

theorem textual_escape (flags : Flags) (c : Char) :
    Textual Token.IsHarmless Item.IsFree (escape flags c) := by
  unfold escape
  split
  · exact textual_pure _
  split
  · exact textual_pure _
  split
  · exact textual_pure _
  split
  next read hread => exact (textual_hexEscape hread).bind fun _ => textual_pure _
  split
  · exact (textual_octal 2).bind fun _ => textual_pure _
  split
  · exact textual_numberEscape _ _
  · exact textual_ite shaped_refuse_bind (textual_pure _)

/-! ## Repetition -/

theorem textual_repetitionCount (digits : List Char) :
    Textual P Always (repetitionCount digits) := by
  unfold repetitionCount
  split
  · exact textual_pure _
  · exact textual_ite (shaped_throw_bind _) (textual_pure _)

/-- Counts in braces whose end has been read. -/
def countsOf (low high : List Char) : Reader (Option (Nat × Option Nat)) := do
  let least := (← repetitionCount low).getD 0
  let most ← repetitionCount high
  match most with
  | some m => if m < least then refuse
  | none => pure ()
  return some (least, most)

theorem textual_countsOf (low high : List Char) : Textual P Always (countsOf low high) := by
  unfold countsOf
  refine (textual_repetitionCount low).bind fun least => ?_
  refine (textual_repetitionCount high).bind fun most => ?_
  dsimp only
  split
  · exact textual_ite shaped_refuse_bind (textual_pure _)
  · exact textual_pure _

theorem run_countsOf_eq_ok {low high : List Char} {r r₁ : Reading}
    {found : Option (Nat × Option Nat)} (h : (countsOf low high).run r = .ok (found, r₁)) :
    ∃ least most, found = some (least, most) ∧ ∀ m, most = some m → least ≤ m := by
  obtain ⟨count, r₂, -, h⟩ := run_bind_eq_ok.mp h
  obtain ⟨most, r₃, -, h⟩ := run_bind_eq_ok.mp h
  refine ⟨count.getD 0, most, ?_⟩
  cases most with
  | none =>
    cases h
    exact ⟨rfl, by simp⟩
  | some m =>
    dsimp only at h
    split at h
    · cases h
    next hle =>
      cases h
      exact ⟨rfl, by simpa using hle⟩

/-- Two texts are the same as far as harmless tokens go, and the same token follows these. -/
def Alongside (s s' : List Char) : Prop :=
  ∀ ts s₁, Spans ts s s₁ → (∀ t ∈ ts, t.IsHarmless) →
    ∃ s₁', s' = written ts ++ s₁' ∧ SameToken s₁ s₁'

/-- What is written in braces, and whether a closing brace ends it. -/
def bracedText (limit : Nat) : Reader (List Char × List Char × Bool) := do
  let low ← takeWhile Char.isDigit limit
  let comma ← accept ','
  let high ← if comma then takeWhile Char.isDigit limit else pure low
  let closed ← accept '}'
  return (low, high, closed)

theorem bracedCounts?_eq : bracedCounts? = do
    let here := (← get).rest
    if (← peek) = some (.plain '}') then return none
    let (low, high, closed) ← bracedText here.length
    if closed then countsOf low high
    else do
      modify fun r => { r with rest := here }
      return none := by
  unfold bracedCounts? bracedText countsOf
  simp only [bind_assoc, pure_bind]
  refine bind_congr fun r => bind_congr fun next => ?_
  split
  · rfl
  refine bind_congr fun low => bind_congr fun comma => ?_
  cases comma with
  | false =>
    simp only [Bool.false_eq_true, ↓reduceIte, bind_assoc, pure_bind]
    refine bind_congr fun closed => ?_
    cases closed <;> rfl
  | true =>
    simp only [↓reduceIte, bind_assoc, pure_bind]
    refine bind_congr fun high => bind_congr fun closed => ?_
    cases closed <;> rfl

theorem textual_bracedText (limit : Nat) : Textual Token.IsHarmless Always (bracedText limit) := by
  have hcomma : Textual Token.IsHarmless Always (accept ',') :=
    textual_accept ⟨',', rfl, by decide⟩
  have hbrace : Textual Token.IsHarmless Always (accept '}') :=
    textual_accept ⟨'}', rfl, by decide⟩
  unfold bracedText
  refine (textual_decimal limit).bind fun low => hcomma.bind fun comma => ?_
  have hhigh : Textual Token.IsHarmless Always
      (if comma then takeWhile Char.isDigit limit else pure low) :=
    textual_ite (textual_decimal limit) (textual_pure low)
  split
  · exact (textual_decimal limit).bind fun high => hbrace.bind fun closed => textual_pure _
  · exact (textual_pure low).bind fun high => hbrace.bind fun closed => textual_pure _

/-- A limit that is not reached does not matter. -/
theorem run_takeWhile_limit {test : Char → Bool} {r r₁ : Reading} {m n : Nat} {found : List Char}
    (hr : r.rest ≠ ['\\']) (hm : r.rest.length ≤ m) (hn : r.rest.length ≤ n)
    (h : (takeWhile test m).run r = .ok (found, r₁)) :
    (takeWhile test n).run r = .ok (found, r₁) := by
  obtain ⟨hspans, htest, hr₁, -, hend⟩ := run_takeWhile hr h
  have hlength := hspans.length_le
  rw [List.length_map] at hlength
  have hstop : Stops test r₁.rest := by
    refine hend.elim (fun hlimit => ?_) id
    rw [List.length_eq_zero_iff.mp (by omega : r₁.rest.length = 0)]
    exact fun c s hnext => by cases hnext
  rw [hr₁]
  exact run_takeWhile_of hspans htest (.inr ⟨by omega, hstop⟩)

theorem run_bracedText_limit {r r₁ : Reading} {m n : Nat} {found : List Char × List Char × Bool}
    (hr : r.rest ≠ ['\\']) (hm : r.rest.length ≤ m) (hn : r.rest.length ≤ n)
    (h : (bracedText m).run r = .ok (found, r₁)) : (bracedText n).run r = .ok (found, r₁) := by
  unfold bracedText at h ⊢
  obtain ⟨low, r₂, hlow, h⟩ := run_bind_eq_ok.mp h
  obtain ⟨comma, r₃, hcomma, h⟩ := run_bind_eq_ok.mp h
  have hspans := (run_takeWhile hr hlow).1
  have hlength := hspans.length_le
  refine run_bind_eq_ok.mpr ⟨low, r₂, run_takeWhile_limit hr hm hn hlow, ?_⟩
  refine run_bind_eq_ok.mpr ⟨comma, r₃, hcomma, ?_⟩
  obtain ⟨rfl, htake⟩ | ⟨rfl, -, -⟩ := run_accept_eq_ok.mp hcomma
  · have hspans' := htake.spans hspans.left
    have hlength' := hspans'.length_le
    simp only [↓reduceIte] at h ⊢
    obtain ⟨high, r₄, hhigh, h⟩ := run_bind_eq_ok.mp h
    exact run_bind_eq_ok.mpr
      ⟨high, r₄, run_takeWhile_limit hspans'.left (by omega) (by omega) hhigh, h⟩
  · exact h

/-- With the limit that each text sets for itself, the text in braces is read wherever it stands. -/
theorem run_bracedText_again {r r₁ : Reading} {found : List Char × List Char × Bool}
    (hr : r.rest ≠ ['\\']) (h : (bracedText r.rest.length).run r = .ok (found, r₁)) :
    ∃ ts, Spans ts r.rest r₁.rest ∧ (∀ t ∈ ts, t.IsHarmless) ∧ r₁ = { r with rest := r₁.rest } ∧
      ∀ (r' : Reading) s', r'.rest = written ts ++ s' → SameToken r₁.rest s' →
        (bracedText r'.rest.length).run r' = .ok (found, { r' with rest := s' }) := by
  obtain ⟨ts, hspans, hts, hr₁, -⟩ := textual_bracedText _ hr h
  refine ⟨ts, hspans, hts, hr₁, fun r' s' hs' hsame => ?_⟩
  -- both runs are runs with the sum of the limits
  let limit := r.rest.length + r'.rest.length
  have hlimit := run_bracedText_limit (n := limit) hr (Nat.le_refl _) (Nat.le_add_right _ _) h
  obtain ⟨us, hspans', -, -, hagain⟩ := textual_bracedText limit hr hlimit
  have hwritten : written us = written ts :=
    List.append_cancel_right (hspans'.eq.symm.trans hspans.eq)
  have hrun := hagain trivial r' s' (hwritten ▸ hs') hsame
  refine run_bracedText_limit (m := limit) ?_ (Nat.le_add_left _ _) (Nat.le_refl _) hrun
  exact Spans.ne_lone ⟨hs', hspans.tokens, hsame.ne_lone hspans.left⟩

/-- Behind an opening brace the reader has either found no counts and gone back, or counts. -/
theorem run_bracedCounts?_eq_ok {r r₁ : Reading} {found : Option (Nat × Option Nat)} :
    bracedCounts?.run r = .ok (found, r₁) ↔
      (next? r = some (.plain '}') ∧ found = none ∧ r₁ = r) ∨
        next? r ≠ some (.plain '}') ∧ ∃ low high closed r₂,
          (bracedText r.rest.length).run r = .ok ((low, high, closed), r₂) ∧
            (if closed then (countsOf low high).run r₂ = .ok (found, r₁)
            else found = none ∧ r₁ = { r₂ with rest := r.rest }) := by
  rw [bracedCounts?_eq, run_bind, run_get, bind_ok, run_bind, run_peek, bind_ok]
  change (if next? r = some (.plain '}') then _ else _ : Reader _).run r = _ ↔ _
  by_cases hbrace : next? r = some (.plain '}')
  · simp only [hbrace, ↓reduceIte, run_pure, Except.ok.injEq, Prod.mk.injEq, ne_eq,
      not_true_eq_false, false_and, or_false, true_and]
    constructor <;> rintro ⟨rfl, rfl⟩ <;> exact ⟨rfl, rfl⟩
  · simp only [hbrace, ↓reduceIte, false_and, false_or, ne_eq, not_false_eq_true, true_and,
      run_bind_eq_ok]
    constructor
    · rintro ⟨⟨low, high, closed⟩, r₂, htext, h⟩
      refine ⟨low, high, closed, r₂, htext, ?_⟩
      cases closed
      · cases h
        exact ⟨rfl, rfl⟩
      · exact h
    · rintro ⟨low, high, closed, r₂, htext, h⟩
      refine ⟨(low, high, closed), r₂, htext, ?_⟩
      cases closed
      · obtain ⟨rfl, rfl⟩ := h
        rfl
      · exact h

/-- Counts in braces are read wherever they stand. -/
theorem textual_bracedCounts? :
    Textual Token.IsHarmless (fun found => found.isSome) bracedCounts? := by
  intro r found r₁ hr h
  obtain ⟨-, rfl, rfl⟩ | ⟨hnext, low, high, closed, r₂, htext, h⟩ := run_bracedCounts?_eq_ok.mp h
  · exact ⟨[], .nil hr, by simp, rfl, by simp⟩
  obtain ⟨ts, hspans, hts, hr₂, hagain⟩ := run_bracedText_again hr htext
  cases closed with
  | false =>
    obtain ⟨rfl, rfl⟩ := h
    exact ⟨[], .nil hr, by simp, by rw [hr₂], by simp⟩
  | true =>
    obtain ⟨us, hspans', hus, hr₁, hagain'⟩ := textual_countsOf low high hspans.left h
    refine ⟨ts ++ us, hspans.append hspans', ?_, by rw [hr₁, hr₂], fun _ r' s' hs' hsame => ?_⟩
    · exact fun t ht => (List.mem_append.mp ht).elim (hts t) (hus t)
    · have hmiddle := hsame.append hspans'.tokens
      have hstart := hsame.append (hspans.append hspans').tokens
      rw [← (hspans.append hspans').eq, ← hs'] at hstart
      rw [← hspans'.eq] at hmiddle
      rw [written_append, List.append_assoc] at hs'
      refine run_bracedCounts?_eq_ok.mpr (.inr ⟨fun heq => hnext (hstart.trans heq), low, high, true,
        _, hagain r' _ hs' hmiddle, hagain' trivial _ s' rfl hsame⟩)

/-- Where a brace stands for itself it does so in front of any text that goes on alike. -/
theorem run_bracedCounts?_none {r r₁ : Reading} (hr : r.rest ≠ ['\\'])
    (h : bracedCounts?.run r = .ok (none, r₁)) {r' : Reading}
    (halong : Alongside r.rest r'.rest) : bracedCounts?.run r' = .ok (none, r') := by
  obtain ⟨s', hs', hstart⟩ := halong [] r.rest (.nil hr) (by simp)
  obtain rfl : r'.rest = s' := hs'
  obtain ⟨hnext, -, -⟩ | ⟨hnext, low, high, closed, r₂, htext, h⟩ := run_bracedCounts?_eq_ok.mp h
  · exact run_bracedCounts?_eq_ok.mpr (.inl ⟨hstart.symm.trans hnext, rfl, rfl⟩)
  obtain ⟨ts, hspans, hts, hr₂, hagain⟩ := run_bracedText_again hr htext
  obtain ⟨s', hs', hsame⟩ := halong ts r₂.rest hspans hts
  refine run_bracedCounts?_eq_ok.mpr (.inr ⟨fun heq => hnext (hstart.trans heq), low, high, closed,
    _, hagain r' s' hs' hsame, ?_⟩)
  cases closed with
  | false => exact ⟨rfl, rfl⟩
  | true =>
    -- counts that are complete are never given up
    obtain ⟨least, most, hsome, -⟩ := run_countsOf_eq_ok h
    cases hsome

theorem textual_counts? (c : Char) :
    Textual Token.IsHarmless (fun found => found.isSome) (counts? c) := by
  unfold counts?
  split
  · exact textual_pure _
  · exact textual_pure _
  · exact textual_pure _
  · exact textual_bracedCounts?

/-- Only a brace can stand for itself, and counts are in order. -/
theorem run_counts?_eq_ok {c : Char} {r r₁ : Reading} {found : Option (Nat × Option Nat)}
    (h : (counts? c).run r = .ok (found, r₁)) :
    (found = none → bracedCounts?.run r = .ok (none, r₁)) ∧
      ∀ least m, found = some (least, some m) → least ≤ m := by
  unfold counts? at h
  split at h
  · cases h
    exact ⟨by simp, fun least m heq => by cases heq; simp⟩
  · cases h
    exact ⟨by simp, fun least m heq => by cases heq⟩
  · cases h
    exact ⟨by simp, fun least m heq => by cases heq⟩
  · refine ⟨fun hnone => hnone ▸ h, fun least m heq => ?_⟩
    obtain ⟨-, rfl, -⟩ | ⟨-, low, high, closed, r₂, -, h⟩ := run_bracedCounts?_eq_ok.mp h
    · cases heq
    cases closed with
    | false =>
      obtain ⟨rfl, -⟩ := h
      cases heq
    | true =>
      obtain ⟨least', most, hsome, hle⟩ := run_countsOf_eq_ok h
      obtain ⟨rfl, rfl⟩ : least = least' ∧ some m = most := by simpa [heq] using hsome
      exact hle m rfl

theorem textual_loopMode : Textual Token.IsHarmless Always loopMode := by
  have hlazy : Textual Token.IsHarmless Always (accept '?') :=
    textual_accept ⟨'?', rfl, by decide⟩
  have hpossessive : Textual Token.IsHarmless Always (accept '+') :=
    textual_accept ⟨'+', rfl, by decide⟩
  unfold loopMode
  refine hlazy.bind fun isLazy => ?_
  refine textual_ite (textual_pure _) (hpossessive.bind fun isPossessive => ?_)
  exact textual_ite (textual_pure _) (textual_pure _)

/-! ## Classes in brackets -/

theorem textual_classEntry (flags : Flags) (t : Token) :
    Textual Token.IsHarmless Always (classEntry flags t) := by
  cases t with
  | plain c => exact textual_pure _
  | escaped c => exact textual_classEscape flags c

/-- An entry whose first token has been read, and whether the class has been closed behind it. -/
def classRange (flags : Flags) (first : Token) (items : List SetItem) :
    Reader (List SetItem × Bool) := do
  let low ← classEntry flags first
  if ← accept '-' then
    match ← token with
    | none => refuse
    | some second =>
      if second = .plain ']' then return (.char 45 :: low :: items, true)
      match low, ← classEntry flags second with
      | .char a, .char b =>
        if b < a then refuse
        return (.range a b :: items, false)
      | _, _ => refuse
  else return (low :: items, false)

theorem classItems_succ (flags : Flags) (fuel : Nat) (items : List SetItem) :
    classItems flags (fuel + 1) items = (do
      match ← token with
      | none => refuse
      | some first =>
        if first = .plain ']' && !items.isEmpty then return items
        let (items, closed) ← classRange flags first items
        if closed then return items else classItems flags fuel items) := by
  rw [classItems]
  refine bind_congr fun found => ?_
  cases found with
  | none => rfl
  | some first =>
    dsimp only
    split
    · rfl
    unfold classRange
    simp only [bind_assoc]
    refine bind_congr fun low => bind_congr fun dash => ?_
    cases dash with
    | false => simp
    | true =>
      simp only [↓reduceIte, bind_assoc]
      refine bind_congr fun found => ?_
      cases found with
      | none => rfl
      | some second =>
        dsimp only
        split
        · rfl
        simp only [bind_assoc]
        refine bind_congr fun high => ?_
        cases low with
        | char a =>
          cases high with
          | char b =>
            dsimp only
            split
            · rfl
            · simp
          | _ => rfl
        | _ => rfl

/-- Tokens none of which is a closing bracket, except that one ends them if `closed`. -/
def UpToBracket (closed : Bool) (ts : List Token) : Prop :=
  ∃ us, ts = us ++ (if closed then [.plain ']'] else []) ∧ .plain ']' ∉ us

theorem upToBracket_append {closed : Bool} {ts us : List Token} (hts : .plain ']' ∉ ts)
    (h : UpToBracket closed us) : UpToBracket closed (ts ++ us) := by
  obtain ⟨vs, rfl, hvs⟩ := h
  exact ⟨ts ++ vs, by simp, by simp [hts, hvs]⟩

theorem not_mem_of_isHarmless {ts : List Token} (h : ∀ t ∈ ts, t.IsHarmless) : .plain ']' ∉ ts := by
  intro hmem
  obtain ⟨c, hc, hnot⟩ := h _ hmem
  cases hc
  simp at hnot

theorem shaped_classRange (flags : Flags) (first : Token) (items : List SetItem) :
    Shaped (fun found ts => found.1 ≠ [] ∧ UpToBracket found.2 ts) Always
      (classRange flags first items) := by
  refine .bind (textual_classEntry flags first) fun low ts hts => ?_
  have hlow := not_mem_of_isHarmless hts
  refine .bind (shaped_accept '-') fun dash _ hdash => ?_
  refine shaped_ite (fun htrue => ?_) fun hfalse => ?_
  · obtain rfl : _ = [Token.plain '-'] := by simpa [htrue] using hdash
    refine .bind shaped_token fun found _ hfound => ?_
    cases found with
    | none => exact shaped_refuse
    | some second =>
      obtain rfl : _ = [second] := hfound
      refine shaped_ite (fun hclose => shaped_pure ?_) fun hclose => ?_
      · exact ⟨by simp, upToBracket_append hlow ⟨[.plain '-'], by simp [hclose]⟩⟩
      · refine .bind (textual_classEntry flags second) fun high us hus => ?_
        have hhigh := not_mem_of_isHarmless hus
        have hrange : UpToBracket false (ts ++ ([.plain '-'] ++ ([second] ++ (us ++ [])))) :=
          ⟨_, (List.append_nil _).symm, by simp [hlow, hhigh, Ne.symm hclose]⟩
        cases low with
        | char a =>
          cases high with
          | char b =>
            exact shaped_ite (fun _ => shaped_refuse_bind) fun _ => shaped_pure ⟨by simp, hrange⟩
          | _ => exact shaped_refuse
        | _ => exact shaped_refuse
  · obtain rfl : _ = [] := by simpa [hfalse] using hdash
    exact shaped_pure ⟨by simp, upToBracket_append hlow ⟨[], by simp⟩⟩

/-- Behind its first entry a class ends with the first closing bracket. -/
theorem shaped_classItems (flags : Flags) (fuel : Nat) {items : List SetItem} (h : items ≠ []) :
    Shaped (fun _ ts => UpToBracket true ts) Always (classItems flags fuel items) := by
  induction fuel generalizing items with
  | zero => exact shaped_refuse
  | succ fuel ih =>
    rw [classItems_succ]
    refine .bind shaped_token fun found _ hfound => ?_
    cases found with
    | none => exact shaped_refuse
    | some first =>
      obtain rfl : _ = [first] := hfound
      refine shaped_ite (fun hclose => shaped_pure ?_) fun hclose => ?_
      · simp only [Bool.and_eq_true, decide_eq_true_eq] at hclose
        exact ⟨[], by simp [hclose.1]⟩
      · have hfirst : .plain ']' ∉ [first] := by
          simp only [List.mem_singleton]
          exact fun heq => hclose (by simp [← heq, h])
        refine .bind (shaped_classRange flags first items) fun ⟨found, closed⟩ ts ⟨hne, hts⟩ => ?_
        refine shaped_ite (fun hclosed => shaped_pure ?_) fun hclosed => ?_
        · rw [List.append_nil]
          exact upToBracket_append hfirst (hclosed ▸ hts)
        · obtain ⟨us, rfl, hus⟩ := hts
          refine (ih hne).weaken (fun _ vs hvs => ?_) fun _ => id
          refine upToBracket_append hfirst (upToBracket_append ?_ hvs)
          simpa [hclosed] using hus

/-- Fuel for every character that is left is fuel enough. -/
theorem run_classItems_fuel {flags : Flags} {items found : List SetItem} {m n : Nat}
    {r r₁ : Reading} (hr : r.rest ≠ ['\\']) (hn : r.rest.length < n)
    (h : (classItems flags m items).run r = .ok (found, r₁)) :
    (classItems flags n items).run r = .ok (found, r₁) := by
  induction m generalizing r n items with
  | zero => cases h
  | succ m ih =>
    obtain ⟨n, rfl⟩ : ∃ k, n = k + 1 := ⟨n - 1, by omega⟩
    rw [classItems_succ] at h ⊢
    obtain ⟨token?, r₂, htoken, hstep⟩ := run_bind_eq_ok.mp h
    refine run_bind_eq_ok.mpr ⟨token?, r₂, htoken, ?_⟩
    obtain ⟨rfl, -, -⟩ | ⟨first, rfl, htake⟩ := run_token_eq_ok.mp htoken
    · cases hstep
    have hspans := htake.spans hr
    dsimp only at hstep ⊢
    split at hstep
    next hclose =>
      rw [if_pos hclose]
      exact hstep
    next hclose =>
      rw [if_neg hclose]
      obtain ⟨⟨items', closed⟩, r₃, hrange, hend⟩ := run_bind_eq_ok.mp hstep
      obtain ⟨ts, hspans', -⟩ := shaped_classRange flags first items hspans.left hrange
      refine run_bind_eq_ok.mpr ⟨_, r₃, hrange, ?_⟩
      have h₁ := hspans.length_le
      have h₂ := hspans'.length_le
      simp only [List.length_singleton] at h₁
      cases closed with
      | true => exact hend
      | false => exact ih hspans'.left (by omega) hend

/-- The item that the entries of a class make. -/
def classItem (flags : Flags) (negated : Bool) (items : List SetItem) : Item :=
  match items.reverse.eraseDups with
  | [.char code] => .ofExpr (.one (.letter code negated flags.folding))
  | items => .ofExpr (.one (.set { items, negated, folding := flags.folding }))

/-- The entries of a class, with fuel for all the text that is left. -/
def classEntries (flags : Flags) : Reader (List SetItem) := do
  let r ← get
  classItems flags (r.rest.length + 1) []

theorem charClass_eq (flags : Flags) : charClass flags = do
    let negated ← accept '^'
    let items ← classEntries flags
    return classItem flags negated items := by
  unfold charClass classEntries classItem
  refine bind_congr fun negated => ?_
  rw [bind_assoc]
  refine bind_congr fun r => bind_congr fun items => ?_
  dsimp only
  generalize items.reverse.eraseDups = found
  obtain _ | ⟨item, _ | ⟨second, rest⟩⟩ := found
  · rfl
  · cases item <;> rfl
  · cases item <;> rfl

/-- The tokens of a class behind its opening bracket: a caret that is meant as one, a first entry,
and what comes up to the closing bracket. -/
inductive IsClass : List Token → Prop
  | negated (first : Token) {ts : List Token} (h : UpToBracket true ts) :
      IsClass (.plain '^' :: first :: ts)
  | plain {first : Token} {ts : List Token} (hfirst : first ≠ .plain '^')
      (h : UpToBracket true ts) : IsClass (first :: ts)

theorem shaped_classItems_nil (flags : Flags) (fuel : Nat) :
    Shaped (fun _ ts => ∃ first us, ts = first :: us ∧ UpToBracket true us) Always
      (classItems flags fuel []) := by
  cases fuel with
  | zero => exact shaped_refuse
  | succ fuel =>
    rw [classItems_succ]
    refine .bind shaped_token fun found _ hfound => ?_
    cases found with
    | none => exact shaped_refuse
    | some first =>
      obtain rfl : _ = [first] := hfound
      refine shaped_ite (fun hclose => by simp at hclose) fun _ => ?_
      refine .bind (shaped_classRange flags first []) fun ⟨found, closed⟩ ts ⟨hne, hts⟩ => ?_
      refine shaped_ite (fun hclosed => shaped_pure ?_) fun hclosed => ?_
      · exact ⟨first, ts, by simp, hclosed ▸ hts⟩
      · obtain ⟨us, rfl, hus⟩ := hts
        refine (shaped_classItems flags fuel hne).weaken (fun _ vs hvs => ?_) fun _ => id
        exact ⟨first, us ++ vs, by simp [hclosed], upToBracket_append hus hvs⟩

theorem shaped_classEntries (flags : Flags) :
    Shaped (fun _ ts => ∃ first us, ts = first :: us ∧ UpToBracket true us) Always
      (classEntries flags) :=
  shaped_fueled (shaped_classItems_nil flags) fun _ _ _ _ _ => run_classItems_fuel

theorem run_charClass {flags : Flags} {r r₁ : Reading} {item : Item} (hr : r.rest ≠ ['\\'])
    (h : (charClass flags).run r = .ok (item, r₁)) :
    ∃ ts, Spans ts r.rest r₁.rest ∧ IsClass ts ∧ r₁ = { r with rest := r₁.rest } ∧
      (∃ negated items, item = classItem flags negated items) ∧
      ∀ (r' : Reading) s', r'.rest = written ts ++ s' → SameToken r₁.rest s' →
        (charClass flags).run r' = .ok (item, { r' with rest := s' }) := by
  rw [charClass_eq] at h ⊢
  obtain ⟨negated, r₂, hcaret, h⟩ := run_bind_eq_ok.mp h
  obtain ⟨items, r₃, hitems, h⟩ := run_bind_eq_ok.mp h
  cases h
  obtain ⟨ts, hspans₁, hts, hr₂, hagain₁⟩ := shaped_accept '^' hr hcaret
  obtain ⟨_, hspans₂, ⟨first, us, rfl, hus⟩, hr₃, hagain₂⟩ :=
    shaped_classEntries flags hspans₁.left hitems
  refine ⟨ts ++ first :: us, hspans₁.append hspans₂, ?_, by rw [hr₃, hr₂], ⟨_, _, rfl⟩,
    fun r' s' hs' hsame => ?_⟩
  · obtain ⟨rfl, -⟩ | ⟨rfl, hne, rfl⟩ := run_accept_eq_ok.mp hcaret
    · obtain rfl : ts = [.plain '^'] := hts
      exact .negated first hus
    · obtain rfl : ts = [] := hts
      refine .plain ?_ hus
      rintro rfl
      exact hne (by simp [next?, hspans₂.nextToken?])
  · have hmiddle := hsame.append hspans₂.tokens
    rw [← hspans₂.eq] at hmiddle
    rw [written_append, List.append_assoc] at hs'
    exact run_bind_eq_ok.mpr ⟨negated, _, hagain₁ trivial r' _ hs' hmiddle,
      run_bind_eq_ok.mpr ⟨items, _, hagain₂ trivial _ s' rfl hsame, rfl⟩⟩

/-! ## Names -/

theorem shaped_textUntil (stop : Char) (fuel : Nat) :
    Shaped (fun found ts => ∃ us, ts = us ++ [.plain stop] ∧ .plain stop ∉ us ∧ found = written us)
      Always (textUntil stop fuel) := by
  induction fuel with
  | zero => exact shaped_refuse
  | succ fuel ih =>
    rw [textUntil]
    refine .bind shaped_token fun found _ hfound => ?_
    cases found with
    | none => exact shaped_refuse
    | some t =>
      obtain rfl : _ = [t] := hfound
      refine shaped_ite (fun hstop => shaped_pure ⟨[], by simp [hstop]⟩) fun hstop => ?_
      refine .bind ih fun _ _ ⟨us, hts, hus, hfound⟩ => shaped_pure ⟨t :: us, ?_, ?_, ?_⟩
      · simp [hts]
      · simpa [hus] using Ne.symm hstop
      · rw [hfound, written_cons]

theorem run_textUntil_fuel {stop : Char} {found : List Char} {m n : Nat} {r r₁ : Reading}
    (hr : r.rest ≠ ['\\']) (hn : r.rest.length < n)
    (h : (textUntil stop m).run r = .ok (found, r₁)) :
    (textUntil stop n).run r = .ok (found, r₁) := by
  induction m generalizing r n found with
  | zero => cases h
  | succ m ih =>
    obtain ⟨n, rfl⟩ : ∃ k, n = k + 1 := ⟨n - 1, by omega⟩
    rw [textUntil] at h ⊢
    obtain ⟨token?, r₂, htoken, hstep⟩ := run_bind_eq_ok.mp h
    refine run_bind_eq_ok.mpr ⟨token?, r₂, htoken, ?_⟩
    obtain ⟨rfl, -, -⟩ | ⟨t, rfl, htake⟩ := run_token_eq_ok.mp htoken
    · cases hstep
    have hspans := htake.spans hr
    have hlength := hspans.length_le
    dsimp only at hstep ⊢
    split at hstep
    next hstop =>
      rw [if_pos hstop]
      exact hstep
    next hstop =>
      rw [if_neg hstop]
      obtain ⟨tail, r₃, htail, hpure⟩ := run_bind_eq_ok.mp hstep
      cases hpure
      simp only [List.length_singleton] at hlength
      exact run_bind_eq_ok.mpr ⟨tail, r₁, ih hspans.left (by omega) htail, rfl⟩

theorem shaped_name (stop : Char) :
    Shaped (fun found ts => ∃ us, ts = us ++ [.plain stop] ∧ .plain stop ∉ us ∧ found = written us)
      Always (name stop) := by
  have htext := shaped_fueled (shaped_textUntil stop) fun _ _ _ _ _ => run_textUntil_fuel
  have heq : name stop = (do
      let found ← (do let r ← get; textUntil stop (r.rest.length + 1))
      if found.isEmpty then refuse
      return found) := by
    unfold name
    rw [bind_assoc]
  rw [heq]
  refine .bind htext fun found ts hts => ?_
  exact shaped_ite (fun _ => shaped_refuse_bind) fun _ => shaped_pure (by simpa using hts)

/-- No character that has a meaning of its own in a pattern stands in an identifier. -/
theorem not_mem_of_isIdentifier {cs : List Char} (h : Text.isIdentifier cs = true) {c : Char}
    (hc : c ∈ ['\\', '(', ')', '[', ']', '|', '#', '>', '?']) : c ∉ cs := by
  intro hmem
  have hnot : ∀ d ∈ ['\\', '(', ')', '[', ']', '|', '#', '>', '?'],
      Text.isIdentifierStart d = false ∧ Text.isIdentifierPart d = false :=
      forall_mem_of_all (by decide)
  obtain ⟨hstart, hpart⟩ := hnot c hc
  cases cs with
  | nil => cases hmem
  | cons d cs =>
    simp only [Text.isIdentifier, Bool.and_eq_true, List.all_eq_true] at h
    obtain rfl | hmem := List.mem_cons.mp hmem
    · simp [hstart] at h
    · simp [h.2 c hmem] at hpart

theorem eq_map_plain {ts : List Token} (h : '\\' ∉ written ts) :
    ts = (written ts).map .plain := by
  induction ts with
  | nil => rfl
  | cons t ts ih =>
    rw [written_cons, List.mem_append, not_or] at h
    cases t with
    | plain c => simpa [Token.chars] using ih h.2
    | escaped c => simp [Token.chars] at h

theorem shaped_groupName (stop : Char) :
    Shaped (fun found ts => ∃ cs : List Char, ts = cs.map .plain ++ [.plain stop] ∧ stop ∉ cs ∧
        Text.isIdentifier cs = true ∧ found = String.ofList cs)
      Always (groupName stop) := by
  unfold groupName
  refine .bind (shaped_name stop) fun found _ ⟨us, hts, hus, hfound⟩ => ?_
  refine shaped_ite (fun _ => shaped_refuse_bind) fun hidentifier => shaped_pure ?_
  obtain rfl := hfound
  replace hidentifier : Text.isIdentifier (written us) = true := by simpa using hidentifier
  have hmap := eq_map_plain (not_mem_of_isIdentifier hidentifier (by simp))
  rw [hmap, List.mem_map] at hus
  exact ⟨written us, by rw [← hmap, hts, List.append_nil], fun h => hus ⟨stop, h, rfl⟩,
    hidentifier, rfl⟩

/-! ## What is passed over -/

/-- With fuel for all the text, what is passed over ends with the first `stop`, or at the end of the
text if that is allowed. -/
theorem run_skipPast {stop : Char} {openEnded : Bool} {fuel : Nat} {r r₁ : Reading} {u : Unit}
    (hr : r.rest ≠ ['\\']) (hfuel : r.rest.length < fuel)
    (h : (skipPast stop openEnded fuel).run r = .ok (u, r₁)) :
    r₁ = { r with rest := r₁.rest } ∧ ∃ ts, .plain stop ∉ ts ∧
      (Spans (ts ++ [.plain stop]) r.rest r₁.rest ∨
        openEnded = true ∧ Spans ts r.rest r₁.rest ∧ r₁.rest = []) := by
  induction fuel generalizing r with
  | zero => omega
  | succ fuel ih =>
    rw [skipPast] at h
    obtain ⟨token?, r₂, htoken, hstep⟩ := run_bind_eq_ok.mp h
    obtain ⟨rfl, hnone, rfl⟩ | ⟨t, rfl, htake⟩ := run_token_eq_ok.mp htoken
    · dsimp only at hstep
      split at hstep
      next hopen =>
        have hnil : r₂.rest = [] := nextToken?_eq_none (by simpa [next?] using hnone)
        cases hstep
        exact ⟨rfl, [], by simp, .inr ⟨hopen, .nil hr, hnil⟩⟩
      next => cases hstep
    have hspans := htake.spans hr
    have hlength := hspans.length_le
    simp only [List.length_singleton] at hlength
    obtain ⟨s, -, -, rfl⟩ := id htake
    dsimp only at hstep
    split at hstep
    next hstop =>
      cases hstep
      subst hstop
      exact ⟨rfl, [], by simp, .inl hspans⟩
    next hstop =>
      obtain ⟨hr₁, ts, hts, hend⟩ := ih hspans.left (by omega) hstep
      refine ⟨hr₁, t :: ts, by simpa [hts] using Ne.symm hstop, ?_⟩
      exact hend.imp hspans.append (And.imp_right (And.imp_left hspans.append))

theorem exists_spans_skipPast {stop : Char} {openEnded : Bool} {r r₁ : Reading} {u : Unit}
    (hr : r.rest ≠ ['\\']) (h : (skipPast stop openEnded (r.rest.length + 1)).run r = .ok (u, r₁)) :
    ∃ ts, Spans ts r.rest r₁.rest := by
  obtain ⟨-, ts, -, hspans | ⟨-, hspans, -⟩⟩ := run_skipPast hr (Nat.lt_succ_self _) h
  · exact ⟨_, hspans⟩
  · exact ⟨_, hspans⟩

theorem run_skipPast_of {stop : Char} {openEnded : Bool} {fuel : Nat} {r : Reading}
    {ts : List Token} {s : List Char} (hts : .plain stop ∉ ts) (hfuel : ts.length < fuel)
    (h : Spans (ts ++ [.plain stop]) r.rest s ∨
      openEnded = true ∧ Spans ts r.rest s ∧ s = []) :
    (skipPast stop openEnded fuel).run r = .ok ((), { r with rest := s }) := by
  induction ts generalizing r fuel with
  | nil =>
    obtain ⟨fuel, rfl⟩ : ∃ k, fuel = k + 1 := ⟨fuel - 1, by simp at hfuel; omega⟩
    rw [skipPast]
    obtain h | ⟨hopen, h, rfl⟩ := h
    · have htake : Takes (.plain stop) r { r with rest := s } :=
        takes_of (h.tokens _ (by simp)) h.left (by simpa using h.eq)
      refine run_bind_eq_ok.mpr ⟨_, _, htake.run_token, ?_⟩
      simp only [↓reduceIte, run_pure]
    · have hnil : r.rest = [] := h.eq
      refine run_bind_eq_ok.mpr ⟨none, r, run_token_of_none (by rw [hnil]; rfl), ?_⟩
      rw [← hnil]
      simp only [hopen, ↓reduceIte, run_pure]
  | cons t ts ih =>
    obtain ⟨fuel, rfl⟩ : ∃ k, fuel = k + 1 := ⟨fuel - 1, by simp at hfuel; omega⟩
    obtain ⟨hstop, hts⟩ : .plain stop ≠ t ∧ .plain stop ∉ ts := by simpa using hts
    obtain ⟨us, hspans, hrest⟩ : ∃ us, Spans (t :: us) r.rest s ∧
        (us = ts ++ [.plain stop] ∨ openEnded = true ∧ us = ts ∧ s = []) := by
      obtain h | ⟨hopen, h, hnil⟩ := h
      · exact ⟨_, h, .inl rfl⟩
      · exact ⟨_, h, .inr ⟨hopen, rfl, hnil⟩⟩
    have htake : Takes t r { r with rest := written us ++ s } :=
      ⟨_, hspans.nextToken?, hspans.tail.ne_lone, rfl⟩
    rw [skipPast]
    refine run_bind_eq_ok.mpr ⟨_, _, htake.run_token, ?_⟩
    simp only [Ne.symm hstop, ↓reduceIte]
    refine ih (r := { r with rest := written us ++ s }) hts (by simpa using hfuel) ?_
    obtain rfl | ⟨hopen, rfl, hnil⟩ := hrest
    · exact .inl hspans.tail
    · exact .inr ⟨hopen, hspans.tail, hnil⟩

/-! ## Flags -/

/-- How a letter among flags changes whether they are being dropped, and whether blanks and remarks
are passed over. -/
def flagStep (state : Bool × Bool) (c : Char) : Bool × Bool :=
  if c = '-' then (true, state.2) else if c = 'x' then (state.1, !state.1) else state

/-- The characters are letters of flags. -/
def AreFlags (cs : List Char) : Prop :=
  ∀ c ∈ cs, (Flags.ofLetter? c).isSome

theorem verbose_ofLetter? {c : Char} {f : Flags} (h : Flags.ofLetter? c = some f) :
    f.verbose = (c == 'x') ∧ c ≠ '-' ∧ c ≠ ')' ∧ c ≠ ':' := by
  unfold Flags.ofLetter? at h
  split at h <;> cases h <;> decide

/-- Letters turn the flag `x` on while flags are added, and off while they are dropped. -/
theorem foldl_flagStep {cs : List Char} (h : AreFlags cs) (dropping verbose : Bool) :
    cs.foldl flagStep (dropping, verbose) =
      (dropping, if cs.contains 'x' then !dropping else verbose) := by
  induction cs generalizing verbose with
  | nil => rfl
  | cons c cs ih =>
    obtain ⟨f, hf⟩ := Option.isSome_iff_exists.mp (h c (by simp))
    obtain ⟨-, hdash, -⟩ := verbose_ofLetter? hf
    have htail : AreFlags cs := fun d hd => h d (List.mem_cons_of_mem _ hd)
    rw [List.foldl_cons, flagStep, if_neg hdash]
    by_cases hc : c = 'x'
    · simp [hc, ih htail]
    · simp [hc, ih htail, Ne.symm hc]

theorem run_flagOf_eq_ok {letter : Option Token} {r r₁ : Reading} {f : Flags}
    (h : (flagOf letter).run r = .ok (f, r₁)) :
    r₁ = r ∧ ∃ c, letter = some (.plain c) ∧ Flags.ofLetter? c = some f := by
  unfold flagOf at h
  split at h
  next c =>
    split at h
    next f' hf =>
      cases h
      exact ⟨rfl, c, rfl, hf⟩
    next => cases h
  next => cases h

theorem shaped_flagOf (letter : Option Token) :
    Shaped (fun f ts => ts = [] ∧ ∃ c, letter = some (.plain c) ∧ Flags.ofLetter? c = some f)
      Always (flagOf letter) := by
  unfold flagOf
  split
  next c =>
    split
    next f hf => exact shaped_pure ⟨rfl, c, rfl, hf⟩
    next => exact shaped_refuse
  next => exact shaped_refuse

/-- The tokens are letters, the first of which has been read before, and a sign that ends them;
among the letters is `x` as the flag says. -/
def AreLetters (first : Option Token) (verbose : Bool) (stop : Char) (ts : List Token) : Prop :=
  ∃ c cs, first = some (.plain c) ∧ ts = cs.map Token.plain ++ [.plain stop] ∧
    AreFlags (c :: cs) ∧ verbose = (c :: cs).contains 'x'

theorem AreLetters.cons {c : Char} {f : Flags} (hf : Flags.ofLetter? c = some f)
    {next : Option Token} {verbose : Bool} {stop : Char} {ts : List Token}
    (h : AreLetters next verbose stop ts) :
    AreLetters (some (.plain c)) (f.verbose || verbose) stop (next.toList ++ ts) := by
  obtain ⟨d, ds, rfl, rfl, hflags, rfl⟩ := h
  refine ⟨c, d :: ds, rfl, by simp, ?_, ?_⟩
  · intro e he
    obtain rfl | he := List.mem_cons.mp he
    · simp [hf]
    · exact hflags e he
  · rw [(verbose_ofLetter? hf).1, List.contains_cons (a := c), BEq.comm]

theorem areLetters_one {c : Char} {f : Flags} (hf : Flags.ofLetter? c = some f) (stop : Char) :
    AreLetters (some (.plain c)) f.verbose stop [.plain stop] :=
  ⟨c, [], rfl, rfl, by simp [AreFlags, hf], by
    rw [(verbose_ofLetter? hf).1, List.contains_cons, BEq.comm, List.contains_nil, Bool.or_false]⟩

theorem shaped_addedFlags (fuel : Nat) (added : Flags) (letter : Option Token) :
    Shaped (fun found ts => found.2 ∈ [')', '-', ':'] ∧ ∃ verbose,
        AreLetters letter verbose found.2 ts ∧ found.1.verbose = (added.verbose || verbose))
      Always (addedFlags fuel added letter) := by
  induction fuel generalizing added letter with
  | zero => exact shaped_refuse
  | succ fuel ih =>
    rw [addedFlags]
    refine .bind (shaped_flagOf letter) fun f _ ⟨hnil, c, hletter, hf⟩ => ?_
    subst hnil hletter
    refine shaped_ite (fun _ => shaped_refuse_bind) fun _ => ?_
    refine .bind shaped_token fun next _ hnext => ?_
    have hend : ∀ stop ∈ [')', '-', ':'], next = some (.plain stop) →
        Shaped (fun found ts => found.2 ∈ [')', '-', ':'] ∧ ∃ verbose,
            AreLetters (some (.plain c)) verbose found.2 ([] ++ (next.toList ++ ts)) ∧
              found.1.verbose = (added.verbose || verbose))
          Always (pure (added.union f, stop) : Reader _) := by
      rintro stop hstop rfl
      exact shaped_pure ⟨hstop, f.verbose, by simpa using areLetters_one hf stop, rfl⟩
    subst hnext
    split
    · exact hend ')' (by simp) rfl
    · exact hend '-' (by simp) rfl
    · exact hend ':' (by simp) rfl
    · refine (ih _ next).weaken (fun found ts ⟨hstop, verbose, hts, hverbose⟩ => ?_) fun _ => id
      refine ⟨hstop, _, hts.cons hf, ?_⟩
      rw [hverbose, Flags.union, Bool.or_assoc]

theorem shaped_droppedFlags (fuel : Nat) (dropped : Flags) (letter : Option Token) :
    Shaped (fun found ts => ∃ verbose, AreLetters letter verbose ':' ts ∧
        found.verbose = (dropped.verbose || verbose))
      Always (droppedFlags fuel dropped letter) := by
  induction fuel generalizing dropped letter with
  | zero => exact shaped_refuse
  | succ fuel ih =>
    rw [droppedFlags]
    refine .bind (shaped_flagOf letter) fun f _ ⟨hnil, c, hletter, hf⟩ => ?_
    subst hnil hletter
    refine shaped_ite (fun _ => shaped_refuse_bind) fun _ => ?_
    refine .bind shaped_token fun next _ hnext => ?_
    subst hnext
    split
    · exact shaped_pure ⟨f.verbose, by simpa using areLetters_one hf ':', rfl⟩
    · refine (ih _ next).weaken (fun found ts ⟨verbose, hts, hverbose⟩ => ?_) fun _ => id
      refine ⟨_, hts.cons hf, ?_⟩
      rw [hverbose, Flags.union, Bool.or_assoc]

/-- Behind a letter there is less text, so that it is enough to compare there how reading goes on. -/
theorem run_letter_bind_mono {letter : Option Token} {refused : Flags → Bool}
    {g g' : Flags → Option Token → Reader α} {r r₁ : Reading} {x : α} (hr : r.rest ≠ ['\\'])
    (hnone : ∀ f, (g f none).run r ≠ .ok (x, r₁))
    (hsome : ∀ f t r₂, r₂.rest ≠ ['\\'] → r₂.rest.length < r.rest.length →
      (g f (some t)).run r₂ = .ok (x, r₁) → (g' f (some t)).run r₂ = .ok (x, r₁))
    (h : (do
      let f ← flagOf letter
      if refused f then refuse
      g f (← token)).run r = .ok (x, r₁)) :
    (do
      let f ← flagOf letter
      if refused f then refuse
      g' f (← token)).run r = .ok (x, r₁) := by
  rw [run_bind_eq_ok] at h
  obtain ⟨f, r₂, hflag, h⟩ := h
  obtain ⟨hr₂, -⟩ := run_flagOf_eq_ok hflag
  refine run_bind_eq_ok.mpr ⟨f, r₂, hflag, ?_⟩
  subst hr₂
  split at h
  · cases h
  next hread =>
  rw [if_neg hread]
  rw [run_bind_eq_ok] at h
  obtain ⟨next, r₃, htoken, h⟩ := h
  refine run_bind_eq_ok.mpr ⟨next, r₃, htoken, ?_⟩
  obtain ⟨rfl, -, rfl⟩ | ⟨t, rfl, htake⟩ := run_token_eq_ok.mp htoken
  · exact absurd h (hnone f)
  have hspans := htake.spans hr
  have hlength := hspans.length_le
  simp only [List.length_singleton] at hlength
  exact hsome f t r₃ hspans.left (by omega) h

theorem run_addedFlags_fuel {added : Flags} {letter : Option Token} {found : Flags × Char}
    {m n : Nat} {r r₁ : Reading} (hr : r.rest ≠ ['\\']) (hn : r.rest.length < n)
    (h : (addedFlags m added letter).run r = .ok (found, r₁)) :
    (addedFlags n added letter).run r = .ok (found, r₁) := by
  induction m generalizing r n added letter with
  | zero => cases h
  | succ m ih =>
    obtain ⟨n, rfl⟩ : ∃ k, n = k + 1 := ⟨n - 1, by omega⟩
    rw [addedFlags] at h ⊢
    refine run_letter_bind_mono hr (fun f => ?_) (fun f t r₂ hr₂ hlength h => ?_) h
    · cases m <;> exact nofun
    · split at h
      · exact h
      · exact h
      · exact h
      · exact ih hr₂ (by omega) h

theorem run_droppedFlags_fuel {dropped found : Flags} {letter : Option Token}
    {m n : Nat} {r r₁ : Reading} (hr : r.rest ≠ ['\\']) (hn : r.rest.length < n)
    (h : (droppedFlags m dropped letter).run r = .ok (found, r₁)) :
    (droppedFlags n dropped letter).run r = .ok (found, r₁) := by
  induction m generalizing r n dropped letter with
  | zero => cases h
  | succ m ih =>
    obtain ⟨n, rfl⟩ : ∃ k, n = k + 1 := ⟨n - 1, by omega⟩
    rw [droppedFlags] at h ⊢
    refine run_letter_bind_mono hr (fun f => ?_) (fun f t r₂ hr₂ hlength h => ?_) h
    · cases m <;> exact nofun
    · split at h
      · exact h
      · exact ih hr₂ (by omega) h

/-- The letters of flags to add, from the first sign behind `(?` on, and the sign that ends them. -/
def firstLetters (first : Char) (fuel : Nat) : Reader (Flags × Char) :=
  if first = '-' then pure ({}, '-') else addedFlags fuel {} (some (.plain first))

/-- The letters of flags to drop behind the sign that ends those to add. -/
def lastLetters (stop : Char) (fuel : Nat) : Reader Flags :=
  if stop = '-' then do droppedFlags fuel {} (← token) else pure {}

/-- Flags behind `(?`, from their first sign on: those to add, and unless they are meant for the
whole pattern those to drop. -/
def flagLetters (first : Char) (fuel : Nat) : Reader (Flags × Option Flags) := do
  let found ← firstLetters first fuel
  if found.2 = ')' then return (found.1, none)
  else if found.1.noLoops then refuse
  else
    let dropped ← lastLetters found.2 fuel
    if dropped.noLoops || found.1.meets dropped then refuse else return (found.1, some dropped)

/-- What flags come to: those of the whole pattern are set. -/
def setFlags : Flags × Option Flags → Reader (Option (Flags × Flags))
  | (added, none) => do
    modify fun r => { r with flags := r.flags.union added }
    return none
  | (added, some dropped) => return some (added, dropped)

theorem refuse_bind (g : β → Reader α) : (refuse >>= g) = refuse :=
  rfl

theorem groupFlags_eq (first : Char) : groupFlags first =
    (do let r ← get; flagLetters first (r.rest.length + 1)) >>= setFlags := by
  have hend : ∀ (fuel : Nat) (found : Flags × Char),
      (if found.2 = ')' then do
        modify fun r => { r with flags := r.flags.union found.1 }
        return none
      else if found.1.noLoops then refuse
      else do
        let dropped ← lastLetters found.2 fuel
        if dropped.noLoops || found.1.meets dropped then refuse
        else return some (found.1, dropped) : Reader (Option (Flags × Flags))) =
      (if found.2 = ')' then return (found.1, none)
      else if found.1.noLoops then refuse
      else do
        let dropped ← lastLetters found.2 fuel
        if dropped.noLoops || found.1.meets dropped then refuse
        else return (found.1, some dropped)) >>= setFlags := by
    intro fuel found
    split
    · rfl
    split
    · rfl
    rw [bind_assoc]
    refine bind_congr fun dropped => ?_
    split <;> rfl
  unfold flagLetters
  simp only [bind_assoc, ← hend]
  unfold groupFlags firstLetters lastLetters
  refine bind_congr fun r => ?_
  by_cases hdash : first = '-'
  · simp only [hdash, ↓reduceIte, pure_bind, bind_assoc, Char.reduceEq, refuse_bind]
  · simp only [hdash, ↓reduceIte, refuse_bind]
    refine bind_congr fun found => ?_
    split
    · rfl
    split
    · rfl
    split
    · simp only [bind_assoc]
    · rfl

/-- The tokens of flags behind their first sign: letters and at most one minus sign, then a colon, or
a closing parenthesis if nothing can be dropped; they leave `x` set as the result says. -/
def AreFlagSigns (first : Char) (found : Flags × Option Flags) (ts : List Token) : Prop :=
  ∃ body : List Char,
    ts = body.map Token.plain ++ [.plain (if found.2.isSome then ':' else ')')] ∧
      (∀ c ∈ ['(', ')', ':'], c ∉ body) ∧
      ∀ verbose, ((first :: body).foldl flagStep (false, verbose)).2 =
        ((verbose || found.1.verbose) && !(found.2.getD {}).verbose)

theorem AreFlags.not_mem {cs : List Char} (h : AreFlags cs) : ∀ c ∈ ['(', ')', ':'], c ∉ cs := by
  intro c hc hmem
  have hnone : ∀ c ∈ ['(', ')', ':'], Flags.ofLetter? c = none := forall_mem_of_all (by decide)
  simpa [hnone c hc] using h c hmem

theorem shaped_firstLetters (first : Char) (fuel : Nat) :
    Shaped (fun found ts => ∃ cs read : List Char, AreFlags cs ∧
        first :: read = (if found.2 = '-' then cs ++ ['-'] else cs) ∧
        ts = read.map Token.plain ++ (if found.2 = '-' then [] else [.plain found.2]) ∧
        found.2 ∈ [')', '-', ':'] ∧ found.1.verbose = cs.contains 'x')
      Always (firstLetters first fuel) := by
  refine shaped_ite (fun hdash => shaped_pure ?_) fun _ => ?_
  · exact ⟨[], [], by simp [AreFlags], by simp [hdash], by simp, by simp, rfl⟩
  refine (shaped_addedFlags fuel {} _).weaken
    (fun ⟨added, stop⟩ ts ⟨hstop, verbose, hts, hverbose⟩ => ?_) fun _ => id
  obtain ⟨c, cs, hc, rfl, hflags, rfl⟩ := hts
  obtain rfl : first = c := by simpa using hc
  refine ⟨first :: cs, if stop = '-' then cs ++ ['-'] else cs, hflags, ?_, ?_, hstop, ?_⟩
  · split <;> simp
  · dsimp only
    split
    next heq => simp [heq]
    next => simp
  · simpa using hverbose

theorem shaped_lastLetters (stop : Char) (fuel : Nat) :
    Shaped (fun found ts => ∃ cs : List Char, AreFlags cs ∧
        ts = (if stop = '-' then cs.map Token.plain ++ [.plain ':'] else []) ∧
        (stop ≠ '-' → cs = []) ∧ found.verbose = cs.contains 'x')
      Always (lastLetters stop fuel) := by
  refine shaped_ite (fun hdash => ?_) fun hne => shaped_pure ?_
  · refine .bind shaped_token fun next _ hnext => ?_
    subst hnext
    refine (shaped_droppedFlags fuel {} next).weaken (fun found ts ⟨verbose, hts, hverbose⟩ => ?_)
      fun _ => id
    obtain ⟨c, cs, rfl, rfl, hflags, rfl⟩ := hts
    exact ⟨c :: cs, hflags, by simp [hdash], fun h => absurd hdash h, by simpa using hverbose⟩
  · exact ⟨[], by simp [AreFlags], by simp [hne], by simp, rfl⟩

theorem shaped_flagLetters (first : Char) (fuel : Nat) :
    Shaped (AreFlagSigns first) Always (flagLetters first fuel) := by
  unfold flagLetters
  refine .bind (shaped_firstLetters first fuel)
    fun ⟨added, stop⟩ ts ⟨cs, read, hflags, hread, hts, hstop, hverbose⟩ => ?_
  dsimp only at hread hts hstop hverbose ⊢
  have hmem : ∀ c ∈ read, c ∈ cs ∨ c = '-' := by
    intro c hc
    have : c ∈ first :: read := List.mem_cons_of_mem _ hc
    rw [hread] at this
    split at this <;> simp_all
  have hsigns : ∀ c ∈ ['(', ')', ':'], c ∉ read := by
    intro c hc hread
    obtain hread | rfl := hmem c hread
    · exact hflags.not_mem c hc hread
    · simp at hc
  refine shaped_ite (fun heq => shaped_pure ?_) fun hne => ?_
  · subst heq
    simp only [Char.reduceEq, ↓reduceIte] at hread hts
    refine ⟨read, by simpa using hts, hsigns, fun verbose => ?_⟩
    rw [hread, foldl_flagStep hflags, hverbose]
    cases verbose <;> simp
  refine shaped_ite (fun _ => shaped_refuse) fun _ => ?_
  refine .bind (shaped_lastLetters stop fuel)
    fun dropped us ⟨ds, hflags', hus, hnone, hverbose'⟩ => ?_
  refine shaped_ite (fun _ => shaped_refuse) fun _ => shaped_pure ?_
  refine ⟨read ++ ds, ?_, fun c hc hmem => ?_, fun verbose => ?_⟩
  · by_cases hminus : stop = '-'
    · simp [hts, hus, hminus]
    · obtain rfl : stop = ':' := by simpa [hne, hminus] using hstop
      simp [hts, hus, hnone]
  · exact (List.mem_append.mp hmem).elim (hsigns c hc) (hflags'.not_mem c hc)
  · rw [← List.cons_append, hread, hverbose, Option.getD_some, hverbose']
    by_cases hminus : stop = '-'
    · rw [if_pos hminus, List.foldl_append, List.foldl_append, foldl_flagStep hflags]
      simp only [List.foldl_cons, List.foldl_nil, flagStep, ↓reduceIte]
      rw [foldl_flagStep hflags']
      cases verbose <;> cases cs.contains 'x' <;> cases ds.contains 'x' <;> rfl
    · rw [if_neg hminus, hnone hminus, List.append_nil, foldl_flagStep hflags]
      cases verbose <;> simp

theorem AreFlagSigns.not_mem {first : Char} {found : Flags × Option Flags} {ts : List Token}
    (h : AreFlagSigns first found ts) : .plain '(' ∉ ts := by
  obtain ⟨body, rfl, hsigns, -⟩ := h
  have hbody := hsigns '(' (by simp)
  split <;> simp [hbody]

theorem run_firstLetters_fuel {first : Char} {found : Flags × Char} {m n : Nat} {r r₁ : Reading}
    (hr : r.rest ≠ ['\\']) (hn : r.rest.length < n)
    (h : (firstLetters first m).run r = .ok (found, r₁)) :
    (firstLetters first n).run r = .ok (found, r₁) := by
  unfold firstLetters at h ⊢
  split at h
  next hdash =>
    rw [if_pos hdash]
    exact h
  next hdash =>
    rw [if_neg hdash]
    exact run_addedFlags_fuel hr hn h

theorem run_lastLetters_fuel {stop : Char} {found : Flags} {m n : Nat} {r r₁ : Reading}
    (hr : r.rest ≠ ['\\']) (hn : r.rest.length < n)
    (h : (lastLetters stop m).run r = .ok (found, r₁)) :
    (lastLetters stop n).run r = .ok (found, r₁) := by
  unfold lastLetters at h ⊢
  split at h
  next hdash =>
    rw [if_pos hdash]
    obtain ⟨next, r₂, htoken, hdropped⟩ := run_bind_eq_ok.mp h
    obtain ⟨ts, hspans, -⟩ := shaped_token hr htoken
    have hlength := hspans.length_le
    exact run_bind_eq_ok.mpr
      ⟨next, r₂, htoken, run_droppedFlags_fuel hspans.left (by omega) hdropped⟩
  next hdash =>
    rw [if_neg hdash]
    exact h

theorem run_flagLetters_fuel {first : Char} {found : Flags × Option Flags} {m n : Nat}
    {r r₁ : Reading} (hr : r.rest ≠ ['\\']) (hn : r.rest.length < n)
    (h : (flagLetters first m).run r = .ok (found, r₁)) :
    (flagLetters first n).run r = .ok (found, r₁) := by
  unfold flagLetters at h ⊢
  obtain ⟨added, r₂, hadded, hrest⟩ := run_bind_eq_ok.mp h
  refine run_bind_eq_ok.mpr ⟨added, r₂, run_firstLetters_fuel hr hn hadded, ?_⟩
  obtain ⟨ts, hspans, -⟩ := shaped_firstLetters first m hr hadded
  have hlength := hspans.length_le
  split at hrest
  next hstop =>
    rw [if_pos hstop]
    exact hrest
  next hstop =>
  rw [if_neg hstop]
  split at hrest
  · cases hrest
  next hloops =>
  rw [if_neg hloops]
  obtain ⟨dropped, r₃, hdropped, hend⟩ := run_bind_eq_ok.mp hrest
  exact run_bind_eq_ok.mpr
    ⟨dropped, r₃, run_lastLetters_fuel hspans.left (by omega) hdropped, hend⟩

/-- The state behind flags: those of the whole pattern are set. -/
def applied : Flags × Option Flags → Reading → Reading
  | (added, none), r => { r with flags := r.flags.union added }
  | (_, some _), r => r

theorem run_setFlags (found : Flags × Option Flags) (r : Reading) :
    (setFlags found).run r = .ok (found.2.map (found.1, ·), applied found r) := by
  obtain ⟨added, _ | dropped⟩ := found <;> rfl

/-- What the reader does with flags depends on their letters alone. -/
theorem run_groupFlags {first : Char} {found : Option (Flags × Flags)} {r r₁ : Reading}
    (hr : r.rest ≠ ['\\']) (h : (groupFlags first).run r = .ok (found, r₁)) :
    ∃ ts flags, Spans ts r.rest r₁.rest ∧ AreFlagSigns first flags ts ∧
      found = flags.2.map (flags.1, ·) ∧ r₁ = applied flags { r with rest := r₁.rest } ∧
      ∀ (r' : Reading) s', r'.rest = written ts ++ s' → SameToken r₁.rest s' →
        (groupFlags first).run r' = .ok (found, applied flags { r' with rest := s' }) := by
  rw [groupFlags_eq] at h ⊢
  obtain ⟨flags, r₂, hletters, hset⟩ := run_bind_eq_ok.mp h
  rw [run_setFlags] at hset
  cases hset
  obtain ⟨ts, hspans, hts, hr₂, hagain⟩ := shaped_fueled (shaped_flagLetters first)
    (fun _ _ _ _ _ => run_flagLetters_fuel) hr hletters
  have hrest : ∀ r : Reading, (applied flags r).rest = r.rest := by
    obtain ⟨added, _ | dropped⟩ := flags <;> exact fun _ => rfl
  refine ⟨ts, flags, hrest r₂ ▸ hspans, hts, rfl, by rw [hrest, ← hr₂], fun r' s' hs' hsame => ?_⟩
  rw [hrest] at hsame
  exact run_bind_eq_ok.mpr ⟨flags, _, hagain trivial r' s' hs' hsame, run_setFlags _ _⟩

/-! ## Groups -/

theorem run_openGroup_none (r : Reading) : (openGroup none).run r =
    .ok (r.widths.size + 1, { r with widths := r.widths.push none }) :=
  rfl

theorem run_openGroup_some {name : String} {number : Nat} {r r₁ : Reading} :
    (openGroup (some name)).run r = .ok (number, r₁) ↔
      r.names.lookup name = none ∧ number = r.widths.size + 1 ∧
        r₁ = { r with
          names := (name, r.widths.size + 1) :: r.names, widths := r.widths.push none } := by
  have hrun : (openGroup (some name)).run r =
      if (r.names.lookup name).isSome then .error .malformed
      else .ok (r.widths.size + 1, { r with
        names := (name, r.widths.size + 1) :: r.names, widths := r.widths.push none }) := by
    rw [openGroup]
    simp only [groups, run_bind, run_get, bind_ok, run_pure]
    split <;> rfl
  rw [hrun]
  cases r.names.lookup name with
  | none =>
    simp only [Option.isSome_none, Bool.false_eq_true, ↓reduceIte, true_and, Except.ok.injEq,
      Prod.mk.injEq]
    exact and_congr eq_comm eq_comm
  | some m => simp

theorem run_closeGroup {number : Nat} {body : Expr} {r r₁ : Reading} {u : Unit}
    (h : (closeGroup number body).run r = .ok (u, r₁)) :
    ∃ width, r₁ = { r with widths := r.widths.setIfInBounds (number - 1) width } := by
  cases h
  exact ⟨_, rfl⟩

/-- A condition reads up to the next closing parenthesis. -/
theorem run_conditionGroup {number : Nat} {r r₁ : Reading} (hr : r.rest ≠ ['\\'])
    (h : conditionGroup.run r = .ok (number, r₁)) :
    ∃ ts conditions, Spans (ts ++ [.plain ')']) r.rest r₁.rest ∧ .plain ')' ∉ ts ∧
      r₁ = { r with rest := r₁.rest, conditions } := by
  unfold conditionGroup at h
  rw [run_bind_eq_ok] at h
  obtain ⟨found, r₂, hname, h⟩ := h
  obtain ⟨_, hspans, ⟨ts, rfl, hts, rfl⟩, hr₂, -⟩ := shaped_name ')' hr hname
  split at h
  next =>
    obtain ⟨_, _, hget, h⟩ := run_bind_eq_ok.mp h
    cases hget
    split at h
    next =>
      cases h
      exact ⟨ts, r.conditions, hspans, hts, by rw [hr₂]⟩
    next => cases h
  next =>
    split at h
    next =>
      split at h
      next => cases h
      next =>
        cases h
        exact ⟨ts, number :: r.conditions, hspans, hts, by rw [hr₂]⟩
    next => cases h

end Reader

end StepTrace.Regex
