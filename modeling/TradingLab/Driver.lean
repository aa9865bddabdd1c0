import Mathlib.Data.Option.Basic

/-! Driving a system through what there is to do, a bounded number of steps at
a time. `next` makes one step, says that nothing is left, or fails. -/

namespace Driver

variable {S T F F' : Type*}

/-- A run through all there is to do, or up to the first failure. -/
inductive Drains (next : S → Except F (Option S)) : S → Except F S → Prop where
  | exhausted {s : S} (hnext : next s = .ok none) : Drains next s (.ok s)
  | failed {s : S} {f : F} (hnext : next s = .error f) : Drains next s (.error f)
  | step {s t : S} {r : Except F S} (hnext : next s = .ok (some t)) (hrest : Drains next t r) :
      Drains next s r

/-- At most `n` steps, and how many there were. -/
def chunk (next : S → Except F (Option S)) : Nat → S → Except F (Nat × S)
  | 0, s => .ok (0, s)
  | n + 1, s =>
    match next s with
    | .error f => .error f
    | .ok none => .ok (0, s)
    | .ok (some t) =>
      match chunk next n t with
      | .error f => .error f
      | .ok (made, u) => .ok (made + 1, u)

/-- Chunks of `n` steps until one of them makes none, with fuel for the
chunks. -/
def drain (next : S → Except F (Option S)) (n : Nat) : Nat → S → Option (Except F S)
  | 0, _ => none
  | fuel + 1, s =>
    match chunk next n s with
    | .error f => some (.error f)
    | .ok (0, t) => some (.ok t)
    | .ok (_ + 1, t) => drain next n fuel t

variable {next : S → Except F (Option S)} {next' : T → Except F' (Option T)}

theorem chunk_one {s t : S} (hnext : next s = .ok (some t)) : chunk next 1 s = .ok (1, t) := by
  simp [chunk, hnext]

theorem chunk_exhausted {s : S} (hnext : next s = .ok none) (n : Nat) : chunk next n s = .ok (0, s) := by
  cases n with
  | zero => rfl
  | succ n => simp [chunk, hnext]

theorem chunk_failed {s : S} {f : F} (hnext : next s = .error f) (n : Nat) :
    chunk next (n + 1) s = .error f := by
  simp [chunk, hnext]

theorem chunk_step {s t : S} (hnext : next s = .ok (some t)) (n : Nat) :
    chunk next (n + 1) s = (chunk next n t).map fun made => (made.1 + 1, made.2) := by
  simp only [chunk, hnext]
  cases chunk next n t <;> rfl

/-- A chunk that fails is a run that fails. -/
theorem Drains.of_chunk_failed {n : Nat} {s : S} {f : F} (hchunk : chunk next n s = .error f) :
    Drains next s (.error f) := by
  induction n generalizing s with
  | zero => cases hchunk
  | succ n ih =>
    cases hnext : next s with
    | error f' =>
      rw [chunk_failed hnext] at hchunk
      cases hchunk
      exact .failed hnext
    | ok o =>
      cases o with
      | none =>
        rw [chunk_exhausted hnext] at hchunk
        cases hchunk
      | some t =>
        rw [chunk_step hnext] at hchunk
        cases hrest : chunk next n t with
        | error f' =>
          rw [hrest] at hchunk
          cases hchunk
          exact .step hnext (ih hrest)
        | ok made =>
          rw [hrest] at hchunk
          cases hchunk

/-- A run may begin with a chunk. -/
theorem Drains.of_chunk {n made : Nat} {s t : S} {r : Except F S} (hchunk : chunk next n s = .ok (made, t))
    (hrest : Drains next t r) : Drains next s r := by
  induction n generalizing s made with
  | zero =>
    cases hchunk
    exact hrest
  | succ n ih =>
    cases hnext : next s with
    | error f =>
      rw [chunk_failed hnext] at hchunk
      cases hchunk
    | ok o =>
      cases o with
      | none =>
        rw [chunk_exhausted hnext] at hchunk
        cases hchunk
        exact hrest
      | some u =>
        rw [chunk_step hnext] at hchunk
        cases hafter : chunk next n u with
        | error f =>
          rw [hafter] at hchunk
          cases hchunk
        | ok after =>
          rw [hafter] at hchunk
          cases hchunk
          exact .step hnext (ih hafter)

/-- What every step preserves holds where a chunk ends. -/
theorem chunk_invariant {I : S → Prop} (hstep : ∀ s t, I s → next s = .ok (some t) → I t) {n made : Nat}
    {s t : S} (hinit : I s) (hchunk : chunk next n s = .ok (made, t)) : I t := by
  induction n generalizing s made with
  | zero =>
    cases hchunk
    exact hinit
  | succ n ih =>
    cases hnext : next s with
    | error f =>
      rw [chunk_failed hnext] at hchunk
      cases hchunk
    | ok o =>
      cases o with
      | none =>
        rw [chunk_exhausted hnext] at hchunk
        cases hchunk
        exact hinit
      | some u =>
        rw [chunk_step hnext] at hchunk
        cases hafter : chunk next n u with
        | error f =>
          rw [hafter] at hchunk
          cases hchunk
        | ok after =>
          rw [hafter] at hchunk
          cases hchunk
          exact ih (hstep _ _ hinit hnext) hafter

/-- A chunk that makes no step was offered none. -/
theorem exhausted_of_chunk {n : Nat} {s t : S} (hchunk : chunk next (n + 1) s = .ok (0, t)) :
    next s = .ok none ∧ t = s := by
  cases hnext : next s with
  | error f =>
    rw [chunk_failed hnext] at hchunk
    cases hchunk
  | ok o =>
    cases o with
    | none =>
      rw [chunk_exhausted hnext] at hchunk
      cases hchunk
      exact ⟨rfl, rfl⟩
    | some u =>
      rw [chunk_step hnext] at hchunk
      cases hafter : chunk next n u with
      | error f =>
        rw [hafter] at hchunk
        cases hchunk
      | ok after =>
        rw [hafter] at hchunk
        cases hchunk

/-- What chunks of any size come to is the run. -/
theorem Drains.of_drain {n fuel : Nat} {s : S} {r : Except F S}
    (hdrain : drain next (n + 1) fuel s = some r) : Drains next s r := by
  induction fuel generalizing s with
  | zero => cases hdrain
  | succ fuel ih =>
    simp only [drain] at hdrain
    split at hdrain
    · rename_i hchunk
      cases hdrain
      exact .of_chunk_failed hchunk
    · rename_i hchunk
      cases hdrain
      obtain ⟨hnext, rfl⟩ := exhausted_of_chunk hchunk
      exact .exhausted hnext
    · rename_i hchunk
      exact .of_chunk hchunk (ih hdrain)

/-- Part of the way into a run, the chunk under way fails as the run does, or
ends where further chunks come to what the run comes to. -/
theorem Drains.chunk_then_drain {s : S} {r : Except F S} (hdrains : Drains next s r) (n m : Nat) :
    (∃ f, chunk next m s = .error f ∧ r = .error f) ∨
      ∃ made t fuel, chunk next m s = .ok (made, t) ∧ drain next (n + 1) fuel t = some r := by
  induction hdrains generalizing m with
  | @exhausted s hnext =>
    refine .inr ⟨0, s, 1, chunk_exhausted hnext m, ?_⟩
    simp only [drain, chunk_exhausted hnext]
  | @failed s f hnext =>
    cases m with
    | zero =>
      refine .inr ⟨0, s, 1, rfl, ?_⟩
      simp only [drain, chunk_failed hnext]
    | succ m => exact .inl ⟨f, chunk_failed hnext m, rfl⟩
  | @step s t r hnext hrest ih =>
    cases m with
    | zero =>
      obtain ⟨f, hchunk, rfl⟩ | ⟨made, u, fuel, hchunk, hdrain⟩ := ih n
      · refine .inr ⟨0, s, 1, rfl, ?_⟩
        simp only [drain, chunk_step hnext, hchunk, Except.map]
      · refine .inr ⟨0, s, fuel + 1, rfl, ?_⟩
        simp only [drain, chunk_step hnext, hchunk, Except.map, hdrain]
    | succ m =>
      obtain ⟨f, hchunk, rfl⟩ | ⟨made, u, fuel, hchunk, hdrain⟩ := ih m
      · exact .inl ⟨f, by rw [chunk_step hnext, hchunk]; rfl, rfl⟩
      · exact .inr ⟨made + 1, u, fuel, by rw [chunk_step hnext, hchunk]; rfl, hdrain⟩

/-- Enough chunks come to what the run comes to. -/
theorem Drains.drain {s : S} {r : Except F S} (hdrains : Drains next s r) (n : Nat) :
    ∃ fuel, Driver.drain next (n + 1) fuel s = some r := by
  obtain ⟨f, hchunk, -⟩ | ⟨made, t, fuel, hchunk, hdrain⟩ := hdrains.chunk_then_drain n 0
  · cases hchunk
  · cases hchunk
    exact ⟨fuel, hdrain⟩

/-- Steps that each lower a measure come to an end within as many chunks as the
measure says. -/
theorem drain_of_measure (I : S → Prop) (measure : S → Nat)
    (hstep : ∀ s t, I s → next s = .ok (some t) → I t ∧ measure t < measure s) {fuel : Nat} {s : S}
    (hinit : I s) (hfuel : measure s < fuel) : ∃ r, Driver.drain next 1 fuel s = some r := by
  induction fuel generalizing s with
  | zero => omega
  | succ fuel ih =>
    cases hnext : next s with
    | error f => exact ⟨.error f, by simp only [Driver.drain, chunk_failed hnext]⟩
    | ok o =>
      cases o with
      | none => exact ⟨.ok s, by simp only [Driver.drain, chunk_exhausted hnext]⟩
      | some t =>
        obtain ⟨ht, hless⟩ := hstep s t hinit hnext
        obtain ⟨r, hrest⟩ := ih ht (by omega)
        exact ⟨r, by simp only [Driver.drain, chunk_one hnext, hrest]⟩

/-- What every step preserves holds where a run ends well. -/
theorem Drains.invariant {I : S → Prop} (hstep : ∀ s t, I s → next s = .ok (some t) → I t) {s s' : S}
    (hinit : I s) (hdrains : Drains next s (.ok s')) : I s' ∧ next s' = .ok none := by
  generalize hresult : Except.ok s' = result at hdrains
  induction hdrains with
  | exhausted hnext =>
    cases hresult
    exact ⟨hinit, hnext⟩
  | failed hnext => cases hresult
  | step hnext hrest ih => exact ih (hstep _ _ hinit hnext) hresult

/-- A run that fails does so from a state that every step preserves. -/
theorem Drains.failure {I : S → Prop} (hstep : ∀ s t, I s → next s = .ok (some t) → I t) {s : S} {f : F}
    (hinit : I s) (hdrains : Drains next s (.error f)) : ∃ s', I s' ∧ next s' = .error f := by
  generalize hresult : Except.error f = result at hdrains
  induction hdrains with
  | exhausted hnext => cases hresult
  | failed hnext =>
    cases hresult
    exact ⟨_, hinit, hnext⟩
  | step hnext hrest ih => exact ih (hstep _ _ hinit hnext) hresult

/-! ### Refinement -/

/-- As long as the first system does not fail, the second goes along with
it. -/
def Follows (next : S → Except F (Option S)) (next' : T → Except F' (Option T)) (R : S → T → Prop) :
    Prop :=
  ∀ s t, R s t → ∀ o, next s = .ok o → ∃ o', next' t = .ok o' ∧ Option.Rel R o o'

/-- A run of the first system that ends well is a run of the second. -/
theorem Follows.drains {R : S → T → Prop} (hfollows : Follows next next' R) {s s' : S} {t : T}
    (hdrains : Drains next s (.ok s')) (hrel : R s t) : ∃ t', Drains next' t (.ok t') ∧ R s' t' := by
  generalize hresult : Except.ok s' = result at hdrains
  induction hdrains generalizing t with
  | exhausted hnext =>
    cases hresult
    obtain ⟨o', hnext', hnone⟩ := hfollows _ _ hrel _ hnext
    cases hnone
    exact ⟨t, .exhausted hnext', hrel⟩
  | failed hnext => cases hresult
  | step hnext hrest ih =>
    obtain ⟨o', hnext', hsome⟩ := hfollows _ _ hrel _ hnext
    cases hsome with
    | some hrel' =>
      obtain ⟨t', hdrains', hend⟩ := ih hrel' hresult
      exact ⟨t', .step hnext' hdrains', hend⟩

/-- When the second system's run fails, so does the first's. -/
theorem Follows.fails {R : S → T → Prop} (hfollows : Follows next next' R) {s : S} {t : T} {f' : F'}
    (hdrains : Drains next' t (.error f')) (hrel : R s t) : ∃ f, Drains next s (.error f) := by
  generalize hresult : Except.error f' = result at hdrains
  induction hdrains generalizing s with
  | exhausted hnext' => cases hresult
  | failed hnext' =>
    cases hnext : next s with
    | error f => exact ⟨f, .failed hnext⟩
    | ok o =>
      obtain ⟨o', hok, -⟩ := hfollows _ _ hrel _ hnext
      rw [hnext'] at hok
      cases hok
  | step hnext' hrest ih =>
    cases hnext : next s with
    | error f => exact ⟨f, .failed hnext⟩
    | ok o =>
      obtain ⟨o', hok, hboth⟩ := hfollows _ _ hrel _ hnext
      rw [hnext'] at hok
      cases hok
      cases hboth with
      | some hrel' =>
        obtain ⟨f, hfails⟩ := ih hrel' hresult
        exact ⟨f, .step hnext hfails⟩

end Driver
