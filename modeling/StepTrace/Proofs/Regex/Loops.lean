import StepTrace.Regex.Match

/-!
# Loops over one character

A loop whose body tests one character counts its rounds instead of running them.  That is a shortcut:
it tries the same numbers of rounds in the same order (`loopSpan_eq_loopRounds`), so that all loops
are the same recursion on their body (`Expr.run_loop`).
-/

namespace StepTrace.Regex

variable {text : Array Char} {test : CharTest} {rest : Rest} {s : State}

/-- Does the character at the place pass the test? -/
def passesAt (text : Array Char) (test : CharTest) (pos : Nat) : Bool :=
  text[pos]?.any test.holds

theorem run_one (text : Array Char) (test : CharTest) (rest : Rest) (s : State) :
    Expr.run text (.one test) rest s = if passesAt text test s.pos then rest s.step else none := by
  rw [Expr.run, passesAt]
  cases h : text[s.pos]? <;> simp [h]

theorem lt_size_of_passesAt {pos : Nat} (h : passesAt text test pos = true) : pos < text.size := by
  unfold passesAt at h
  by_cases hlt : pos < text.size
  · exact hlt
  · rw [Array.getElem?_eq_none (by omega)] at h
    cases h

/-! ## First one, then the other -/

theorem greedyRounds_succ (round : Round) (rest : Rest) (fuel : Nat) (most began : Option Nat)
    (s : State) : greedyRounds round rest (fuel + 1) most began s =
      if exhausted most began s then rest s
      else (round (greedyRounds round rest fuel (most.map (· - 1)) (some s.pos)) s).or (rest s) := by
  simp only [greedyRounds]
  refine ite_congr rfl (fun _ => rfl) fun _ => ?_
  cases round (greedyRounds round rest fuel (most.map (· - 1)) (some s.pos)) s <;> rfl

theorem lazyRounds_succ (round : Round) (rest : Rest) (fuel : Nat) (most began : Option Nat)
    (s : State) : lazyRounds round rest (fuel + 1) most began s =
      (rest s).or (if exhausted most began s then none
        else round (lazyRounds round rest fuel (most.map (· - 1)) (some s.pos)) s) := by
  simp only [lazyRounds]
  cases rest s <;> rfl

theorem longestFirst_cons (rest : Rest) (s : State) (least extra : Nat) :
    longestFirst rest s least (extra + 1) =
      (rest { s with pos := s.pos + (least + (extra + 1)) }).or (longestFirst rest s least extra) := by
  rw [longestFirst]
  cases rest { s with pos := s.pos + (least + (extra + 1)) } <;> rfl

theorem shortestFirst_cons (rest : Rest) (s : State) (taken extra : Nat) :
    shortestFirst rest s taken (extra + 1) =
      (rest { s with pos := s.pos + taken }).or (shortestFirst rest s (taken + 1) extra) := by
  rw [shortestFirst]
  cases rest { s with pos := s.pos + taken } <;> rfl

/-! ## Counting -/

/-- How many characters from the place on pass the test, at most `limit` of them. -/
def passing (text : Array Char) (test : CharTest) (limit pos : Nat) : Nat :=
  spanEnd text test limit pos - pos

theorem spanEnd_succ (limit pos : Nat) : spanEnd text test (limit + 1) pos =
    if passesAt text test pos then spanEnd text test limit (pos + 1) else pos := by
  rw [spanEnd, passesAt]
  cases text[pos]? <;> rfl

theorem le_spanEnd (limit pos : Nat) : pos ≤ spanEnd text test limit pos := by
  induction limit generalizing pos with
  | zero => exact Nat.le_refl _
  | succ limit ih =>
    rw [spanEnd_succ]
    split
    · exact Nat.le_of_succ_le (ih (pos + 1))
    · exact Nat.le_refl _

@[simp] theorem passing_zero (pos : Nat) : passing text test 0 pos = 0 :=
  Nat.sub_self pos

theorem passing_succ (limit pos : Nat) : passing text test (limit + 1) pos =
    if passesAt text test pos then passing text test limit (pos + 1) + 1 else 0 := by
  have hle : pos + 1 ≤ spanEnd text test limit (pos + 1) := le_spanEnd limit (pos + 1)
  unfold passing
  rw [spanEnd_succ]
  split <;> omega

theorem passing_of_not {limit pos : Nat} (h : passesAt text test pos = false) :
    passing text test limit pos = 0 := by
  cases limit with
  | zero => exact passing_zero pos
  | succ limit => simp [passing_succ, h]

theorem passing_le (limit pos : Nat) : passing text test limit pos ≤ limit := by
  induction limit generalizing pos with
  | zero => simp
  | succ limit ih =>
    rw [passing_succ]
    split
    · exact Nat.succ_le_succ (ih _)
    · exact Nat.zero_le _

/-- What is counted first, and the rest. -/
theorem passing_add (least more pos : Nat) : passing text test (least + more) pos =
    if passing text test least pos = least then least + passing text test more (pos + least)
    else passing text test least pos := by
  induction least generalizing pos with
  | zero => simp
  | succ least ih =>
    rw [Nat.add_right_comm, passing_succ, passing_succ]
    by_cases h : passesAt text test pos = true
    · rw [if_pos h, if_pos h, ih]
      have hplace : pos + 1 + least = pos + (least + 1) := by omega
      rw [hplace]
      split <;> split <;> omega
    · rw [if_neg h, if_neg h]
      simp

/-! ## Rounds over one character -/

/-- The state so many characters further on. -/
def State.skip (s : State) (n : Nat) : State :=
  { s with pos := s.pos + n }

theorem rounds_one (n : Nat) (rest : Rest) (s : State) :
    rounds (Expr.run text (.one test)) n rest s =
      if passing text test n s.pos = n then rest (s.skip n) else none := by
  induction n generalizing s with
  | zero => simp [rounds, State.skip]
  | succ n ih =>
    simp only [rounds]
    rw [run_one, passing_succ]
    by_cases h : passesAt text test s.pos = true
    · rw [if_pos h, if_pos h, ih]
      have hskip : s.step.skip n = s.skip (n + 1) := by
        simp only [State.step, State.skip]
        congr 1
        omega
      have hpos : s.step.pos = s.pos + 1 := rfl
      rw [hskip, hpos]
      simp
    · rw [if_neg h, if_neg h]
      simp

theorem longestFirst_step (rest : Rest) (s : State) (least extra : Nat) :
    longestFirst rest s (least + 1) extra = longestFirst rest s.step least extra := by
  have hskip : ∀ n, { s with pos := s.pos + (n + 1) } = { s.step with pos := s.step.pos + n } := by
    intro n
    simp only [State.step]
    congr 1
    omega
  induction extra with
  | zero => rw [longestFirst, longestFirst, hskip]
  | succ extra ih => rw [longestFirst_cons, longestFirst_cons, ← hskip, ih, Nat.add_right_comm]

/-- The least number is tried last. -/
theorem longestFirst_succ (rest : Rest) (s : State) (least extra : Nat) :
    longestFirst rest s least (extra + 1) =
      (longestFirst rest s (least + 1) extra).or (longestFirst rest s least 0) := by
  induction extra with
  | zero =>
    rw [longestFirst_cons]
    rfl
  | succ extra ih =>
    rw [longestFirst_cons, ih, longestFirst_cons, Option.or_assoc, Nat.add_right_comm least 1,
      Nat.add_assoc least]

theorem shortestFirst_step (rest : Rest) (s : State) (taken extra : Nat) :
    shortestFirst rest s (taken + 1) extra = shortestFirst rest s.step taken extra := by
  have hskip : ∀ n, { s with pos := s.pos + (n + 1) } = { s.step with pos := s.step.pos + n } := by
    intro n
    simp only [State.step]
    congr 1
    omega
  induction extra generalizing taken with
  | zero => rw [shortestFirst, shortestFirst, hskip]
  | succ extra ih => rw [shortestFirst_cons, shortestFirst_cons, ← hskip, ih]

/-- The rounds that are left at a place: each takes a character of the text. -/
def roundsLeft (text : Array Char) (most : Option Nat) (pos : Nat) : Nat :=
  match most with
  | some m => min m (text.size - pos)
  | none => text.size - pos

theorem roundsLeft_succ {most : Option Nat} {pos : Nat} (hmost : most ≠ some 0)
    (hpos : pos < text.size) :
    roundsLeft text most pos = roundsLeft text (most.map (· - 1)) (pos + 1) + 1 := by
  cases most with
  | none =>
    simp only [roundsLeft, Option.map_none]
    omega
  | some m =>
    have hm : m ≠ 0 := fun h => hmost (h ▸ rfl)
    simp only [roundsLeft, Option.map_some]
    omega

theorem exhausted_eq {most began : Option Nat} (hbegan : began ≠ some s.pos) :
    exhausted most began s = (most == some 0) := by
  simp [exhausted, hbegan]

/-- Greedy rounds of one character try the greatest number first. -/
theorem greedyRounds_one {fuel : Nat} {most began : Option Nat} (hbegan : began ≠ some s.pos)
    (hfuel : text.size - s.pos < fuel) :
    greedyRounds (Expr.run text (.one test)) rest fuel most began s =
      longestFirst rest s 0 (passing text test (roundsLeft text most s.pos) s.pos) := by
  induction fuel generalizing s most began with
  | zero => omega
  | succ fuel ih =>
    rw [greedyRounds_succ, exhausted_eq hbegan]
    by_cases hmost : most = some 0
    · subst hmost
      simp [roundsLeft, longestFirst]
    have hne : (most == some 0) = false := by simpa using hmost
    rw [hne, if_neg (by simp), run_one]
    cases hpass : passesAt text test s.pos with
    | false => simp [passing_of_not hpass, longestFirst]
    | true =>
      have hlt := lt_size_of_passesAt hpass
      have hpos : s.step.pos = s.pos + 1 := rfl
      rw [if_pos rfl, ih (by simp [hpos]) (by omega), roundsLeft_succ hmost hlt, passing_succ, hpass,
        if_pos rfl, hpos, longestFirst_succ, longestFirst_step]
      rfl

/-- Lazy rounds of one character try the least number first. -/
theorem lazyRounds_one {fuel : Nat} {most began : Option Nat} (hbegan : began ≠ some s.pos)
    (hfuel : text.size - s.pos < fuel) :
    lazyRounds (Expr.run text (.one test)) rest fuel most began s =
      shortestFirst rest s 0 (passing text test (roundsLeft text most s.pos) s.pos) := by
  induction fuel generalizing s most began with
  | zero => omega
  | succ fuel ih =>
    have hnone : shortestFirst rest s 0 0 = rest s := rfl
    rw [lazyRounds_succ, exhausted_eq hbegan]
    by_cases hmost : most = some 0
    · subst hmost
      simp [roundsLeft, hnone]
    have hne : (most == some 0) = false := by simpa using hmost
    rw [hne, if_neg (by simp), run_one]
    cases hpass : passesAt text test s.pos with
    | false => simp [passing_of_not hpass, hnone]
    | true =>
      have hlt := lt_size_of_passesAt hpass
      have hpos : s.step.pos = s.pos + 1 := rfl
      rw [if_pos rfl, ih (by simp [hpos]) (by omega), roundsLeft_succ hmost hlt, passing_succ, hpass,
        if_pos rfl, hpos, shortestFirst_cons, shortestFirst_step]
      rfl

theorem once_one : once (Expr.run text (.one test)) = Expr.run text (.one test) := by
  funext rest s
  rw [once, run_one, run_one]
  cases passesAt text test s.pos <;> rfl

/-! ## The shortcut -/

/-- No more characters than those of the text can pass. -/
theorem passing_eq_min (limit pos : Nat) : passing text test limit pos =
    passing text test (min limit (text.size - pos)) pos := by
  induction limit generalizing pos with
  | zero => simp
  | succ limit ih =>
    cases hpass : passesAt text test pos with
    | false => rw [passing_of_not hpass, passing_of_not hpass]
    | true =>
      have hlt := lt_size_of_passesAt hpass
      have hmin : min (limit + 1) (text.size - pos) = min limit (text.size - (pos + 1)) + 1 := by
        omega
      rw [hmin, passing_succ, passing_succ, ← ih]

/-- Counting as far as a loop goes is counting its least rounds and as far as it goes from there. -/
theorem passing_roundsLeft {least : Nat} {most : Option Nat} (hbound : ∀ m, most = some m → least ≤ m)
    (pos : Nat) : passing text test (roundsLeft text most pos) pos =
      if passing text test least pos = least then
        least + passing text test (roundsLeft text (most.map (· - least)) (pos + least)) (pos + least)
      else passing text test least pos := by
  rw [← passing_add, passing_eq_min, passing_eq_min (least + _)]
  congr 1
  cases most with
  | none =>
    simp only [roundsLeft, Option.map_none]
    omega
  | some m =>
    have := hbound m rfl
    simp only [roundsLeft, Option.map_some]
    omega

theorem longestFirst_skip (rest : Rest) (s : State) (least extra : Nat) :
    longestFirst rest s least extra = longestFirst rest (s.skip least) 0 extra := by
  induction least generalizing s with
  | zero => rfl
  | succ least ih =>
    rw [longestFirst_step, ih]
    congr 1
    simp only [State.step, State.skip]
    congr 1
    omega

theorem shortestFirst_skip (rest : Rest) (s : State) (taken extra : Nat) :
    shortestFirst rest s taken extra = shortestFirst rest (s.skip taken) 0 extra := by
  induction taken generalizing s with
  | zero => rfl
  | succ taken ih =>
    rw [shortestFirst_step, ih]
    congr 1
    simp only [State.step, State.skip]
    congr 1
    omega

theorem longestFirst_some (s : State) (least extra : Nat) :
    longestFirst some s least extra = some (s.skip (least + extra)) := by
  cases extra with
  | zero => rfl
  | succ extra => rw [longestFirst_cons]; rfl

theorem loopSpan_eq (mode : LoopMode) (least : Nat) (most : Option Nat) (rest : Rest) (s : State) :
    loopSpan text mode least most test rest s =
      if passing text test (roundsLeft text most s.pos) s.pos < least then none
      else match mode with
        | .greedy =>
          longestFirst rest s least (passing text test (roundsLeft text most s.pos) s.pos - least)
        | .lazy =>
          shortestFirst rest s least (passing text test (roundsLeft text most s.pos) s.pos - least)
        | .possessive => rest (s.skip (passing text test (roundsLeft text most s.pos) s.pos)) := by
  cases most <;> rfl

/-- Counting the rounds of a loop comes to the same as running them. -/
theorem loopSpan_eq_loopRounds (mode : LoopMode) {least : Nat} {most : Option Nat}
    (hbound : ∀ m, most = some m → least ≤ m) :
    loopSpan text mode least most test =
      loopRounds text.size mode least most (Expr.run text (.one test)) := by
  funext rest s
  let more := most.map (· - least)
  have hfuel : text.size - (s.skip least).pos < text.size + 2 := by omega
  rw [loopSpan_eq, passing_roundsLeft hbound]
  by_cases hleast : passing text test least s.pos = least
  · rw [if_pos hleast, if_neg (by omega), Nat.add_sub_cancel_left]
    cases mode with
    | greedy =>
      simp only [loopRounds]
      rw [rounds_one, if_pos hleast, greedyRounds_one (by simp) hfuel, ← longestFirst_skip]
      rfl
    | lazy =>
      simp only [loopRounds]
      rw [rounds_one, if_pos hleast, lazyRounds_one (by simp) hfuel, ← shortestFirst_skip]
      rfl
    | possessive =>
      simp only [loopRounds]
      rw [once_one, once, rounds_one, if_pos hleast, greedyRounds_one (by simp) hfuel,
        ← longestFirst_skip, longestFirst_some]
      rfl
  · have hlt : passing text test least s.pos < least :=
      Nat.lt_of_le_of_ne (passing_le _ _) hleast
    rw [if_neg hleast, if_pos hlt]
    cases mode with
    | greedy | lazy =>
      simp only [loopRounds]
      rw [rounds_one, if_neg hleast]
    | possessive =>
      simp only [loopRounds]
      rw [once_one, once, rounds_one, if_neg hleast]

/-- All loops run their body. -/
theorem Expr.run_loop (mode : LoopMode) {least : Nat} {most : Option Nat}
    (hbound : ∀ m, most = some m → least ≤ m) (body : Expr) :
    run text (.loop mode least most body) =
      loopRounds text.size mode least most (run text body) := by
  cases body with
  | one test => exact loopSpan_eq_loopRounds mode hbound
  | _ => rfl

end StepTrace.Regex
