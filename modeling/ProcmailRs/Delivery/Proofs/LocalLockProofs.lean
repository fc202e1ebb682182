import ProcmailRs.Delivery.LocalLock
import Mathlib.Algebra.Order.BigOperators.Group.Finset

/-!
# Who holds a lock file

However the acquisitions of a lock file are interleaved, fail or are killed, the holders are accounted
for: each one stands for the file that is there, or for a file that was removed as stale. So two can hold
the lock at once only after somebody has removed a stale file; and nobody does that in a run in which
the ages of the files are compared with the clock in time.
-/

namespace ProcmailRs

namespace LocalLock

open Interleaving

variable {ι : Type} {policy : Policy} {directory after : Directory} {phase phase' : DotlockPhase}

/-! ### What one call can do -/

namespace DotlockPhase

/-- When the acquisition has started, while it goes on. -/
def started : DotlockPhase → Option Nat
  | .Checking started | .Opening started | .Inspecting started | .Dating started _ | .Removing started
  | .Waiting started _ => some started
  | .Starting | .Holding | .Dropped | .TimedOut _ | .Failed _ | .Killed => none

/-- The phases that are entered without further notice. -/
def ordinary : DotlockPhase → Bool
  | .Holding | .Removing _ | .TimedOut _ => false
  | _ => true

end DotlockPhase

/-- What an acquisition can do to the directory, and when. -/
inductive Effect (policy : Policy) : Directory → DotlockPhase → Directory → DotlockPhase → Prop
  | created {directory : Directory} {started : Nat} {stat : FileStat} (hentry : directory.entry = none) :
    Effect policy directory (.Opening started) { directory with entry := some stat } .Holding
  | removed {directory : Directory} {started : Nat} (hentry : directory.entry.isSome) :
    Effect policy directory (.Removing started) directory.removeStale (.Checking started)
  | returned {directory : Directory} (hentry : directory.entry.isSome) :
    Effect policy directory .Holding directory.withoutEntry .Dropped
  | forsaken {directory : Directory} {phase : DotlockPhase} (hphase : phase.started = none)
    (hordinary : phase.ordinary = true) : Effect policy directory .Holding directory.forsake phase
  | began {directory : Directory} :
    Effect policy directory .Starting directory (.Checking directory.monotonic)
  | foundStale {directory : Directory} {started now : Nat} {modified : Int}
    (hnow : directory.systemTime = some now) (hstale : isStale policy modified now = true) :
    Effect policy directory (.Dating started modified) directory (.Removing started)
  | timedOut {directory : Directory} {started : Nat} {wait : Wait}
    (hlate : policy.timeout ≤ directory.monotonic - started) :
    Effect policy directory (.Waiting started wait) directory (.TimedOut started)
  | went {directory : Directory} {phase phase' : DotlockPhase} (hphase : phase ≠ .Holding)
    (hordinary : phase'.ordinary = true)
    (hstarted : phase'.started = none ∨ phase'.started = phase.started) :
    Effect policy directory phase directory phase'

theorem retryDelay_eq_none {elapsed : Nat} (h : retryDelay policy elapsed = none) :
    policy.timeout ≤ elapsed := by
  unfold retryDelay at h
  split at h
  · omega
  · split at h
    · omega
    · cases h

/-- Waiting asks for the time, for signals, or to sleep; it times out when the timeout has passed. -/
theorem answers_waitForRetry {started : Nat} {wait : Wait} {call : Call DotlockCall}
    {resume : call.Answer DotlockCall.Answer → WaitStep} {answer : call.Answer DotlockCall.Answer}
    (hnext : waitForRetry policy started wait = .ask call resume)
    (hanswer : directory.Answers call answer after) :
    after = directory ∧
      (resume answer = .TimedOut → policy.timeout ≤ directory.monotonic - started) := by
  cases wait with
  | Measuring =>
    cases hnext
    obtain ⟨rfl, rfl⟩ := hanswer
    refine ⟨rfl, fun htimedOut => ?_⟩
    cases hdelay : retryDelay policy (after.monotonic - started) with
    | none => exact retryDelay_eq_none hdelay
    | some delay => simp [hdelay] at htimedOut
  | Scheduling delay =>
    cases hnext
    refine ⟨hanswer.2, fun htimedOut => ?_⟩
    cases hretry : instantAdd answer delay <;> simp [hretry] at htimedOut
  | Polling retryAt =>
    cases hnext
    refine ⟨hanswer, fun htimedOut => ?_⟩
    cases answer <;> cases htimedOut
  | Waking retryAt =>
    cases hnext
    refine ⟨hanswer.2, fun htimedOut => ?_⟩
    cases hrest : untilRetry retryAt answer <;> simp [hrest] at htimedOut
  | Sleeping retryAt interval =>
    cases hnext
    refine ⟨hanswer, fun htimedOut => ?_⟩
    cases htimedOut

theorem ask_of_map {κ : Type} {α : κ → Type} {ρ ρ' : Type} {f : ρ → ρ'} {next : Next κ α ρ}
    {call : Call κ} {resume : call.Answer α → ρ'} (h : next.map f = .ask call resume) :
    ∃ resume', next = .ask call resume' ∧ resume = fun answer => f (resume' answer) := by
  cases next with
  | ended => cases h
  | ask call' resume' =>
    cases h
    exact ⟨resume', rfl, rfl⟩

theorem Acts.effect (h : Acts policy directory phase after phase') :
    Effect policy directory phase after phase' := by
  cases h with
  | killed =>
    by_cases hphase : phase = .Holding
    · rw [if_pos hphase, hphase]
      exact .forsaken rfl rfl
    · rw [if_neg hphase]
      exact .went hphase rfl (.inl rfl)
  | @call _ _ call resume answer hnext hanswer =>
    cases phase with
    | Starting =>
      cases hnext
      obtain ⟨rfl, rfl⟩ := hanswer
      exact .began
    | Checking started =>
      cases hnext
      cases hanswer
      cases answer with
      | error error => exact .went (by simp) rfl (.inl rfl)
      | ok _ => exact .went (by simp) rfl (.inr rfl)
    | Opening started =>
      cases hnext
      cases answer with
      | ok _ =>
        obtain ⟨hentry, stat, -, rfl⟩ := hanswer
        exact .created hentry
      | error errno =>
        obtain ⟨-, rfl⟩ := hanswer
        dsimp only
        split
        · split
          · exact .went (by simp) rfl (.inr rfl)
          · exact .went (by simp) rfl (.inr rfl)
        · exact .went (by simp) rfl (.inl rfl)
    | Inspecting started =>
      cases hnext
      cases answer with
      | error errno =>
        cases hanswer
        exact .went (by simp) rfl (.inl rfl)
      | ok stat =>
        obtain ⟨-, rfl⟩ := hanswer
        dsimp only
        split
        · exact .went (by simp) rfl (.inr rfl)
        · exact .went (by simp) rfl (.inr rfl)
    | Dating started modified =>
      cases hnext
      obtain ⟨hnow, rfl⟩ := hanswer
      cases answer with
      | none => exact .went (by simp) rfl (.inl rfl)
      | some now =>
        dsimp only
        split
        · exact .foundStale hnow.symm ‹_›
        · exact .went (by simp) rfl (.inr rfl)
    | Removing started =>
      cases hnext
      cases answer with
      | error errno =>
        cases hanswer
        exact .went (by simp) rfl (.inl rfl)
      | ok _ =>
        obtain ⟨⟨stat, hentry, -⟩, rfl⟩ := hanswer
        exact .removed (by simp [hentry])
    | Waiting started wait =>
      obtain ⟨resume', hwait, rfl⟩ := ask_of_map hnext
      obtain ⟨rfl, hlate⟩ := answers_waitForRetry hwait hanswer
      dsimp only
      cases hstep : resume' answer with
      | Going wait => exact .went (by simp) rfl (.inr rfl)
      | Retry => exact .went (by simp) rfl (.inr rfl)
      | TimedOut => exact .timedOut (hlate hstep)
      | Failed error => exact .went (by simp) rfl (.inl rfl)
    | Holding =>
      cases hnext
      cases answer with
      | error errno =>
        cases hanswer
        exact .forsaken rfl rfl
      | ok _ =>
        obtain ⟨⟨stat, hentry, -⟩, rfl⟩ := hanswer
        exact .returned (by simp [hentry])
    | Dropped => cases hnext
    | TimedOut started => cases hnext
    | Failed error => cases hnext
    | Killed => cases hnext

theorem ne_holding_of_ordinary {phase : DotlockPhase} (h : phase.ordinary = true) : phase ≠ .Holding := by
  rintro rfl
  cases h

/-- No call changes the time. -/
theorem Effect.monotonic (h : Effect policy directory phase after phase') :
    after.monotonic = directory.monotonic := by
  cases h <;> rfl

/-! ### One acquisition alone -/

section Alone

variable (policy : Policy) (p : Directory → Prop)

/-- The directory is in a state as `p` demands after every call. -/
abbrev Alone (policy : Policy) (p : Directory → Prop) : Directory × DotlockPhase → Directory × DotlockPhase → Prop :=
  Relation.ReflTransGen fun x y => Acts policy x.1 x.2 y.1 y.2 ∧ p y.1

theorem alone_call {start : Directory × DotlockPhase} {before after : Directory}
    {phase phase' : DotlockPhase} (h : Alone policy p start (before, phase))
    (hact : Acts policy before phase after phase') (hp : p after) : Alone policy p start (after, phase') :=
  h.tail ⟨hact, hp⟩

theorem alone_opens {directory : Directory} (hp : p directory) :
    Alone policy p (directory, .Starting) (directory, .Opening directory.monotonic) := by
  have hstart : Acts policy directory .Starting directory (.Checking directory.monotonic) :=
    @Acts.call policy directory directory .Starting .Instant _ directory.monotonic rfl ⟨rfl, rfl⟩
  have hcheck : Acts policy directory (.Checking directory.monotonic) directory
      (.Opening directory.monotonic) :=
    @Acts.call policy directory directory (.Checking directory.monotonic) .CheckIo _ (.ok ()) rfl rfl
  exact alone_call policy p (alone_call policy p .refl hstart hp) hcheck hp

theorem alone_creates {directory : Directory} (hentry : directory.entry = none) (stat : FileStat)
    (hstat : stat.directory = false) (started : Nat) (hp : p { directory with entry := some stat }) :
    Alone policy p (directory, .Opening started) ({ directory with entry := some stat }, .Holding) := by
  refine alone_call policy p .refl ?_ hp
  exact @Acts.call policy directory { directory with entry := some stat } (.Opening started)
    (.Lock .Create) _ (.ok ()) rfl ⟨hentry, stat, hstat, rfl⟩

theorem alone_acquires {directory : Directory} (hentry : directory.entry = none) (stat : FileStat)
    (hstat : stat.directory = false) (hp : p directory) (hp' : p { directory with entry := some stat }) :
    Alone policy p (directory, .Starting) ({ directory with entry := some stat }, .Holding) :=
  (alone_opens policy p hp).trans (alone_creates policy p hentry stat hstat _ hp')

theorem alone_returns {directory : Directory} {stat : FileStat} (hentry : directory.entry = some stat)
    (hstat : stat.directory = false) (hp : p directory.withoutEntry) :
    Alone policy p (directory, .Holding) (directory.withoutEntry, .Dropped) := by
  refine alone_call policy p .refl ?_ hp
  exact @Acts.call policy directory directory.withoutEntry .Holding (.Lock .Return) _ (.ok ()) rfl
    ⟨⟨stat, hentry, hstat⟩, rfl⟩

/-- The file is there, and its age is read. -/
theorem alone_inspects {directory : Directory} {stat : FileStat} (hentry : directory.entry = some stat)
    (hstat : maybeStale stat = true) (htimeout : policy.timeout ≠ 0) (hp : p directory) :
    Alone policy p (directory, .Starting) (directory, .Dating directory.monotonic stat.modified) := by
  have htaken := @Acts.call policy directory directory (.Opening directory.monotonic) (.Lock .Create) _
    (.error ⟨.Exist, ⟨.AlreadyExists, false, "File exists (os error 17)"⟩⟩) rfl
    ⟨fun _ => by simp [hentry], rfl⟩
  have hread := @Acts.call policy directory directory (.Inspecting directory.monotonic) (.Lock .Stat) _
    (.ok stat) rfl ⟨hentry, rfl⟩
  simp only [if_true, htimeout, if_false] at htaken
  simp only [hstat, if_true] at hread
  exact alone_call policy p (alone_call policy p (alone_opens policy p hp) htaken hp) hread hp

/-- The file whose age was read may have gone, and the one that is there is removed. -/
theorem alone_removes {directory : Directory} {stat : FileStat} (hentry : directory.entry = some stat)
    (hstat : stat.directory = false) {started now : Nat} {modified : Int}
    (hnow : directory.systemTime = some now) (hstale : isStale policy modified now = true)
    (hp : p directory) (hp' : p directory.removeStale) :
    Alone policy p (directory, .Dating started modified) (directory.removeStale, .Opening started) := by
  have hdate := @Acts.call policy directory directory (.Dating started modified) (.Lock .SystemTime) _
    (some now) rfl ⟨hnow.symm, rfl⟩
  have hremove := @Acts.call policy directory directory.removeStale (.Removing started)
    (.Lock .RemoveStale) _ (.ok ()) rfl ⟨⟨stat, hentry, hstat⟩, rfl⟩
  have hcheck : Acts policy directory.removeStale (.Checking started) directory.removeStale
      (.Opening started) :=
    @Acts.call policy directory.removeStale directory.removeStale (.Checking started) .CheckIo _ (.ok ())
      rfl rfl
  simp only [hstale, if_true] at hdate
  exact alone_call policy p (alone_call policy p (alone_call policy p .refl hdate hp) hremove hp')
    hcheck hp'

end Alone

/-! ### The account -/

/-- What is owed by the directory: the locks without a file, less the files. -/
def stock (directory : Directory) : Int :=
  directory.forsaken - directory.entry.toList.length - directory.removed

/-- One for the party that holds the lock. -/
def share (phase : DotlockPhase) : Int := if phase = .Holding then 1 else 0

theorem length_toList_of_isSome {α : Type} {o : Option α} (h : o.isSome) : o.toList.length = 1 := by
  obtain ⟨a, rfl⟩ := Option.isSome_iff_exists.mp h
  rfl

theorem Effect.balance (h : Effect policy directory phase after phase') :
    stock after + share phase' = stock directory + share phase := by
  cases h with
  | created hentry =>
    simp [stock, share, hentry]
    omega
  | removed hentry =>
    have hlen := length_toList_of_isSome hentry
    simp [stock, share, Directory.removeStale, hlen]
    omega
  | returned hentry =>
    have hlen := length_toList_of_isSome hentry
    simp [stock, share, Directory.withoutEntry, hlen]
    omega
  | forsaken _ hordinary =>
    simp [stock, share, Directory.forsake, ne_holding_of_ordinary hordinary]
    omega
  | began => rfl
  | foundStale _ _ => rfl
  | timedOut _ => rfl
  | went hphase hordinary _ => simp [share, hphase, ne_holding_of_ordinary hordinary]

theorem Directory.Passes.stock (h : Directory.Passes directory after) :
    LocalLock.stock after = LocalLock.stock directory := by
  have hentry : after.entry.toList.length = directory.entry.toList.length := by
    have hsome := h.entry
    cases hafter : after.entry <;> cases hbefore : directory.entry <;> simp_all
  simp only [LocalLock.stock, h.removed, h.forsaken, hentry]

section Account

variable [Fintype ι] {policies : ι → Policy} {P : Acquisitions ι → Prop} {c c' : Acquisitions ι}

/-- The parties that hold the lock. -/
def holders (c : Acquisitions ι) : Finset ι := Finset.univ.filter fun i => c.own i = .Holding

theorem sum_share (c : Acquisitions ι) : ∑ i, share (c.own i) = (holders c).card := by
  simp only [share, holders, Finset.sum_ite, Finset.sum_const_zero, add_zero, Finset.sum_const,
    nsmul_eq_mul, mul_one]

theorem total_fresh (h : Fresh c) : total stock share c = 0 := by
  have hshare : ∑ i, share (c.own i) = 0 :=
    Finset.sum_eq_zero fun i _ => by simp [share, h.starting i]
  simp [total, stock, hshare, h.removed, h.forsaken]

variable [DecidableEq ι]

theorem account (hstart : Fresh c) (h : Run (system policies) P c c') :
    (holders c').card + c'.shared.forsaken = c'.shared.entry.toList.length + c'.shared.removed := by
  have hact : ∀ i s r s' r', (system policies).act i s r s' r' → stock s' + share r' = stock s + share r :=
    fun i s r s' r' hact => Acts.effect hact |>.balance
  have hpasses : ∀ s s', (system policies).surroundings s s' → stock s' = stock s :=
    fun s s' hpasses => Directory.Passes.stock hpasses
  have hbalance := h.balance hact hpasses
  rw [total_fresh hstart, total, sum_share, stock] at hbalance
  omega

theorem exclusive_of_removed_eq_zero (hstart : Fresh c) (h : Run (system policies) P c c')
    (hremoved : c'.shared.removed = 0) :
    (∀ i j, c'.own i = .Holding → c'.own j = .Holding → i = j) ∧
      ∀ i, c'.own i = .Holding → c'.shared.entry.isSome := by
  have haccount := account hstart h
  rw [hremoved] at haccount
  have hentry : c'.shared.entry.toList.length ≤ 1 := by cases c'.shared.entry <;> simp
  constructor
  · intro i j hi hj
    have hcard : (holders c').card ≤ 1 := by omega
    exact Finset.card_le_one.mp hcard i (by simp [holders, hi]) j (by simp [holders, hj])
  · intro i hi
    have hpos : 0 < (holders c').card := Finset.card_pos.mpr ⟨i, by simp [holders, hi]⟩
    cases hnone : c'.shared.entry with
    | some stat => rfl
    | none =>
      rw [hnone] at haccount
      simp only [Option.toList_none, List.length_nil] at haccount
      omega

/-- Every holder stands for the file that is there or for one that was removed as stale; what is left
over are the locks without a holder. So without the removal of a stale file nobody holds the lock beside
somebody else. -/
theorem holders_are_accounted_for (hstart : Fresh c) (h : Run (system policies) P c c') :
    (holders c').card + c'.shared.forsaken = c'.shared.entry.toList.length + c'.shared.removed ∧
      (holders c').card ≤ 1 + c'.shared.removed ∧
      (c'.shared.removed = 0 →
        (∀ i j, c'.own i = .Holding → c'.own j = .Holding → i = j) ∧
          ∀ i, c'.own i = .Holding → c'.shared.entry.isSome) := by
  have haccount := account hstart h
  have hentry : c'.shared.entry.toList.length ≤ 1 := by cases c'.shared.entry <;> simp
  exact ⟨haccount, by omega, exclusive_of_removed_eq_zero hstart h⟩

/-- One of two acquisitions holds the lock, and the other one has read the age of its file. -/
theorem holders_are_accounted_for_two :
    (holders ⟨⟨some ⟨false, 0, 0⟩, 0, some 0, 0, 0⟩, Function.update (Function.update
      (fun _ => .Starting) true .Holding) false (.Dating 0 0)⟩).card ≤ 1 + 0 := by
  have hstart : Run (system fun _ : Bool => ⟨nanosPerSecond, 0⟩) (fun _ => True)
      ⟨⟨none, 0, some 0, 0, 0⟩, fun _ => .Starting⟩ ⟨⟨none, 0, some 0, 0, 0⟩, fun _ => .Starting⟩ :=
    .start trivial
  have hheld := hstart.solo (fun _ => True) true rfl (fun _ _ _ => trivial)
    (alone_acquires ⟨nanosPerSecond, 0⟩ (fun _ => True) rfl ⟨false, 0, 0⟩ rfl trivial trivial)
  have hread := hheld.solo (fun _ => True) false rfl (fun _ _ _ => trivial)
    (alone_inspects ⟨nanosPerSecond, 0⟩ (fun _ => True) rfl rfl (by decide) trivial)
  exact (holders_are_accounted_for ⟨fun _ => rfl, rfl, rfl⟩ hread).2.1

omit [Fintype ι] in
theorem run_of_prompt (h : Run (promptSystem policies) P c c') : Run (system policies) P c c' := by
  refine Run.weaken ?_ ?_ h
  · intro i s r s' r' hact
    exact hact.1
  · intro s s' hpasses
    exact hpasses

omit [Fintype ι] in
theorem nothing_removed (hstart : Fresh c) (h : Run (promptSystem policies) P c c') :
    c'.shared.removed = 0 ∧ ∀ i started, c'.own i ≠ .Removing started := by
  refine h.invariant (Q := fun c => c.shared.removed = 0 ∧ ∀ i started, c.own i ≠ .Removing started)
    ⟨hstart.removed, fun i started => by simp [hstart.starting i]⟩ ?_
  rintro c c' - ⟨hremoved, hnone⟩ hstep
  cases hstep with
  | surroundings hpasses => exact ⟨hpasses.removed.trans hremoved, hnone⟩
  | @act i directory phase hact =>
    obtain ⟨hacts, hprompt⟩ := hact
    have heffect := Acts.effect hacts
    have hrest : directory.removed = 0 ∧ ∀ started, phase ≠ .Removing started := by
      generalize hbefore : c.own i = before at heffect hprompt
      cases heffect with
      | created _ => exact ⟨hremoved, by simp⟩
      | removed _ => exact absurd hbefore (hnone i _)
      | returned _ => exact ⟨hremoved, by simp⟩
      | forsaken _ hordinary => exact ⟨hremoved, by rintro _ rfl; cases hordinary⟩
      | began => exact ⟨hremoved, by simp⟩
      | foundStale hnow hstale =>
        rw [hprompt _ _ _ rfl (by simp) hnow] at hstale
        cases hstale
      | timedOut _ => exact ⟨hremoved, by simp⟩
      | went _ hordinary _ => exact ⟨hremoved, by rintro _ rfl; cases hordinary⟩
    refine ⟨hrest.1, fun j started => ?_⟩
    by_cases hij : j = i
    · subst hij
      simp only [Function.update_self]
      exact hrest.2 started
    · simp only [Function.update_of_ne hij]
      exact hnone j started

/-- While the ages that are read are compared with the clock in time, no file is removed as stale, and the
lock excludes. -/
theorem prompt_locks_exclude (hstart : Fresh c) (h : Run (promptSystem policies) P c c') :
    c'.shared.removed = 0 ∧ (∀ i j, c'.own i = .Holding → c'.own j = .Holding → i = j) ∧
      ∀ i, c'.own i = .Holding → c'.shared.entry.isSome := by
  have hremoved := (nothing_removed hstart h).1
  exact ⟨hremoved, exclusive_of_removed_eq_zero hstart (run_of_prompt h) hremoved⟩

omit [Fintype ι] in
/-- Only the comparison of an age with the clock has to be prompt. -/
theorem acts_promptly (h : Run (promptSystem policies) P c c') (i : ι) (hown : c'.own i = phase)
    (hphase : ∀ started modified, phase ≠ .Dating started modified)
    (hact : Acts (policies i) c'.shared phase after phase')
    (hP : P ⟨after, Function.update c'.own i phase'⟩) :
    Run (promptSystem policies) P c ⟨after, Function.update c'.own i phase'⟩ := by
  refine h.step (.act ⟨hown ▸ hact, ?_⟩) hP
  rintro started modified now hdating
  exact absurd (hown.symm.trans hdating) (hphase started modified)

/-- The second of two acquisitions reads the age of the file of the first one, compares it with the clock
and waits. -/
theorem prompt_locks_exclude_second :
    ∃ c : Acquisitions Bool, c.own false = .Waiting 0 .Measuring ∧ c.own true = .Holding ∧
      c.shared.removed = 0 ∧ ∀ i, c.own i = .Holding → true = i := by
  obtain ⟨policies, hpolicies⟩ : ∃ policies : Bool → Policy, policies = fun _ => ⟨nanosPerSecond, 0⟩ :=
    ⟨_, rfl⟩
  have htimeout : (policies false).timeout ≠ 0 := by simp [hpolicies, nanosPerSecond]
  have hregular : maybeStale ⟨false, 0, 0⟩ = true := by decide
  have hyoung : isStale (policies false) 0 0 = false := by simp [hpolicies, isStale]
  have hstart : Run (promptSystem policies) (fun _ => True)
      ⟨⟨none, 0, some 0, 0, 0⟩, fun _ => .Starting⟩ ⟨⟨none, 0, some 0, 0, 0⟩, fun _ => .Starting⟩ :=
    .start trivial
  -- The first one creates the file.
  have hchecked := acts_promptly hstart true rfl (by simp)
    (@Acts.call (policies true) ⟨none, 0, some 0, 0, 0⟩ _ .Starting .Instant _ 0 rfl ⟨rfl, rfl⟩) trivial
  have hopened := acts_promptly hchecked true (by simp) (by simp)
    (@Acts.call (policies true) ⟨none, 0, some 0, 0, 0⟩ _ (.Checking 0) .CheckIo _ (.ok ()) rfl rfl) trivial
  have hheld := acts_promptly hopened true (by simp) (by simp)
    (@Acts.call (policies true) ⟨none, 0, some 0, 0, 0⟩ _ (.Opening 0) (.Lock .Create) _ (.ok ()) rfl
      ⟨rfl, ⟨false, 0, 0⟩, rfl, rfl⟩) trivial
  simp only [Function.update_idem] at hheld
  -- The second one finds it, and reads its age.
  have hcalled := acts_promptly hheld false (by simp) (by simp)
    (@Acts.call (policies false) ⟨some ⟨false, 0, 0⟩, 0, some 0, 0, 0⟩ _ .Starting .Instant _ 0 rfl
      ⟨rfl, rfl⟩) trivial
  have hasked := acts_promptly hcalled false (by simp) (by simp)
    (@Acts.call (policies false) ⟨some ⟨false, 0, 0⟩, 0, some 0, 0, 0⟩ _ (.Checking 0) .CheckIo _ (.ok ())
      rfl rfl) trivial
  have htaken := @Acts.call (policies false) ⟨some ⟨false, 0, 0⟩, 0, some 0, 0, 0⟩
    ⟨some ⟨false, 0, 0⟩, 0, some 0, 0, 0⟩ (.Opening 0) (.Lock .Create) _
    (.error ⟨.Exist, ⟨.AlreadyExists, false, "File exists (os error 17)"⟩⟩) rfl ⟨fun _ => rfl, rfl⟩
  simp only [if_true, htimeout, if_false] at htaken
  have hfound := acts_promptly hasked false (by simp) (by simp) htaken trivial
  have hstat := @Acts.call (policies false) ⟨some ⟨false, 0, 0⟩, 0, some 0, 0, 0⟩ _ (.Inspecting 0)
    (.Lock .Stat) _ (.ok ⟨false, 0, 0⟩) rfl ⟨rfl, rfl⟩
  simp only [hregular, if_true] at hstat
  have hread := acts_promptly hfound false (by simp) (by simp) hstat trivial
  -- The file is not older than the timeout.
  have hdated := @Acts.call (policies false) ⟨some ⟨false, 0, 0⟩, 0, some 0, 0, 0⟩ _ (.Dating 0 0)
    (.Lock .SystemTime) _ (some 0) rfl ⟨rfl, rfl⟩
  have hprompt : Prompt (policies false) ⟨some ⟨false, 0, 0⟩, 0, some 0, 0, 0⟩ (.Dating 0 0)
      (.Waiting 0 .Measuring) := by
    intro started modified now hdating _ hnow
    cases hdating
    cases hnow
    exact hyoung
  simp only [hyoung, Bool.false_eq_true, if_false] at hdated
  have hact : (promptSystem policies).act false ⟨some ⟨false, 0, 0⟩, 0, some 0, 0, 0⟩ (.Dating 0 0)
      ⟨some ⟨false, 0, 0⟩, 0, some 0, 0, 0⟩ (.Waiting 0 .Measuring) := ⟨hdated, hprompt⟩
  have hwaits := hread.step (.act (i := false) (by simpa using hact)) trivial
  have hresult := prompt_locks_exclude ⟨fun _ => rfl, rfl, rfl⟩ hwaits
  exact ⟨_, by simp, by simp, hresult.1, fun i hi => hresult.2.1 true i (by simp) hi⟩

end Account

/-! ### Timeouts -/

/-- The acquisition has begun at `begun` or later, but not in the future, and when it has timed out, its
timeout has passed since then. -/
structure TimesOutLate (policy : Policy) (begun : Nat) (directory : Directory) (phase : DotlockPhase) :
    Prop where
  past : begun ≤ directory.monotonic
  waiting : ∀ started, phase.started = some started → begun ≤ started ∧ started ≤ directory.monotonic
  late : ∀ started, phase = .TimedOut started →
    begun ≤ started ∧ started + policy.timeout ≤ directory.monotonic

variable {begun : Nat}

theorem TimesOutLate.later (h : TimesOutLate policy begun directory phase)
    (hlater : directory.monotonic ≤ after.monotonic) : TimesOutLate policy begun after phase :=
  ⟨h.past.trans hlater,
    fun started hstarted => ⟨(h.waiting started hstarted).1, (h.waiting started hstarted).2.trans hlater⟩,
    fun started hphase => ⟨(h.late started hphase).1, (h.late started hphase).2.trans hlater⟩⟩

theorem TimesOutLate.act (h : TimesOutLate policy begun directory phase)
    (hact : Acts policy directory phase after phase') : TimesOutLate policy begun after phase' := by
  have heffect := hact.effect
  have hmonotonic := heffect.monotonic
  have hbegun : begun ≤ after.monotonic := h.past.trans_eq hmonotonic.symm
  cases heffect with
  | created _ => exact ⟨hbegun, by simp [DotlockPhase.started], by simp⟩
  | removed _ => exact ⟨hbegun, fun started hstarted => h.waiting started hstarted, by simp⟩
  | returned _ => exact ⟨hbegun, by simp [DotlockPhase.started], by simp⟩
  | forsaken hnone hordinary =>
    refine ⟨hbegun, fun started hstarted => ?_, fun started hphase => ?_⟩
    · rw [hnone] at hstarted
      cases hstarted
    · rw [hphase] at hordinary
      cases hordinary
  | began =>
    refine ⟨hbegun, fun started hstarted => ?_, by simp⟩
    cases hstarted
    exact ⟨hbegun, Nat.le_refl _⟩
  | foundStale _ _ => exact ⟨hbegun, fun started hstarted => h.waiting started hstarted, by simp⟩
  | @timedOut started wait hlate =>
    refine ⟨hbegun, by simp [DotlockPhase.started], fun started' hphase => ?_⟩
    cases hphase
    obtain ⟨hbefore, hstarted⟩ := h.waiting started rfl
    exact ⟨hbefore, by omega⟩
  | went _ hordinary hstarted =>
    refine ⟨hbegun, fun started hsome => ?_, fun started hphase => ?_⟩
    · rcases hstarted with hnone | hsame
      · rw [hnone] at hsome
        cases hsome
      · exact h.waiting started (hsame ▸ hsome)
    · rw [hphase] at hordinary
      cases hordinary

/-- However the clock of the system is set and the acquisitions are interleaved, nobody gives up before
its own timeout has passed since it began: the moment it counts from is not before any in which it had
not begun. -/
theorem dotlock_times_out_late [DecidableEq ι] {policies : ι → Policy} {P : Acquisitions ι → Prop}
    {c c' : Acquisitions ι} (i : ι) (started : Nat) (hstart : c.own i = .Starting)
    (h : Run (system policies) P c c') (htimedOut : c'.own i = .TimedOut started) :
    c.shared.monotonic ≤ started ∧ started + (policies i).timeout ≤ c'.shared.monotonic := by
  have hlate : TimesOutLate (policies i) c.shared.monotonic c'.shared (c'.own i) := by
    refine h.invariant (Q := fun c' => TimesOutLate (policies i) c.shared.monotonic c'.shared (c'.own i)) ?_ ?_
    · rw [hstart]
      exact ⟨Nat.le_refl _, by simp [DotlockPhase.started], by simp⟩
    · intro c₁ c₂ _ hlate hstep
      cases hstep with
      | surroundings hpasses => exact hlate.later hpasses.monotonic
      | @act j directory phase hact =>
        by_cases hij : i = j
        · subst hij
          simp only [Function.update_self]
          exact hlate.act hact
        · simp only [Function.update_of_ne hij]
          exact hlate.later (Acts.effect hact).monotonic.ge
  exact hlate.late started htimedOut

/-- What is in the way is a directory, and the time of one acquisition passes. -/
theorem dotlock_times_out_late_directory :
    ∃ c : Acquisitions Unit, c.own () = .TimedOut 2 ∧ 2 ≤ 2 ∧ 2 + 3 ≤ c.shared.monotonic := by
  have hstart : Run (system fun _ : Unit => ⟨3, 1⟩) (fun _ => True)
      ⟨⟨some ⟨true, 0, 0⟩, 2, some 0, 0, 1⟩, fun _ => .Starting⟩
      ⟨⟨some ⟨true, 0, 0⟩, 2, some 0, 0, 1⟩, fun _ => .Starting⟩ := .start trivial
  have htaken : Acts ⟨3, 1⟩ ⟨some ⟨true, 0, 0⟩, 2, some 0, 0, 1⟩ (.Opening 2)
      ⟨some ⟨true, 0, 0⟩, 2, some 0, 0, 1⟩ (.Inspecting 2) :=
    @Acts.call ⟨3, 1⟩ _ _ (.Opening 2) (.Lock .Create) _
      (.error ⟨.Exist, ⟨.AlreadyExists, false, "File exists (os error 17)"⟩⟩) rfl ⟨fun _ => rfl, rfl⟩
  have hread : Acts ⟨3, 1⟩ ⟨some ⟨true, 0, 0⟩, 2, some 0, 0, 1⟩ (.Inspecting 2)
      ⟨some ⟨true, 0, 0⟩, 2, some 0, 0, 1⟩ (.Waiting 2 .Measuring) :=
    @Acts.call ⟨3, 1⟩ _ _ (.Inspecting 2) (.Lock .Stat) _ (.ok ⟨true, 0, 0⟩) rfl ⟨rfl, rfl⟩
  have hwaits := hstart.solo (fun _ => True) () rfl (fun _ _ _ => trivial)
    (alone_call ⟨3, 1⟩ (fun _ => True) (alone_call ⟨3, 1⟩ (fun _ => True)
      (alone_opens ⟨3, 1⟩ (fun _ => True) trivial) htaken trivial) hread trivial)
  have hlater : Directory.Passes ⟨some ⟨true, 0, 0⟩, 2, some 0, 0, 1⟩
      ⟨some ⟨true, 0, 0⟩, 7, some 0, 0, 1⟩ := ⟨by decide, rfl, rfl, rfl⟩
  have hlate : Acts ⟨3, 1⟩ ⟨some ⟨true, 0, 0⟩, 7, some 0, 0, 1⟩ (.Waiting 2 .Measuring)
      ⟨some ⟨true, 0, 0⟩, 7, some 0, 0, 1⟩ (.TimedOut 2) := by
    have hmeasured := @Acts.call ⟨3, 1⟩ ⟨some ⟨true, 0, 0⟩, 7, some 0, 0, 1⟩ _ (.Waiting 2 .Measuring)
      .Instant _ 7 rfl ⟨rfl, rfl⟩
    exact hmeasured
  have hgivenUp := (hwaits.step (.surroundings hlater) trivial).solo (fun _ => True) () rfl (fun _ _ _ => trivial)
    (alone_call ⟨3, 1⟩ (fun _ => True) .refl hlate trivial)
  exact ⟨_, rfl, dotlock_times_out_late () 2 rfl hgivenUp rfl⟩

/-! ### The race -/

/-- No file gets older than the timeout of anybody. -/
def Young (policies : ι → Policy) (directory : Directory) : Prop :=
  ∀ i stat now, directory.entry = some stat → directory.systemTime = some now →
    isStale (policies i) stat.modified now = false

theorem young_of_none (policies : ι → Policy) (h : directory.entry = none) : Young policies directory := by
  intro i stat now hentry
  rw [h] at hentry
  cases hentry

theorem young_of_now (policies : ι → Policy) {now : Nat} (stat : FileStat)
    (hentry : directory.entry = some stat) (hnow : directory.systemTime = some now)
    (hmodified : stat.modified = now) : Young policies directory := by
  intro i stat' now' hentry' hnow'
  rw [hentry] at hentry'
  rw [hnow] at hnow'
  cases hentry'
  cases hnow'
  simp [isStale, hmodified]

/-- It is not enough that every holder gives the lock back in time: an acquisition that is held up
between reading the age of a file and looking at the clock removes the file of a later holder. -/
theorem young_files_do_not_exclude [DecidableEq ι] (policies : ι → Policy) {i j k : ι} (hij : i ≠ j)
    (hik : i ≠ k) (hjk : j ≠ k) (htimeout : (policies j).timeout ≠ 0) :
    ∃ c c', Fresh c ∧ Run (system policies) (fun c => Young policies c.shared) c c' ∧
      c'.own i = .Holding ∧ c'.own j = .Holding := by
  obtain ⟨late, hlate⟩ : ∃ late, late = (policies j).timeout / nanosPerSecond + 1 := ⟨_, rfl⟩
  have hnone : ∀ time removed, Young policies ⟨none, 0, some time, removed, 0⟩ := fun _ _ =>
    young_of_none policies rfl
  have hyoung : ∀ (time removed : Nat), Young policies ⟨some ⟨false, 0, time⟩, 0, some time, removed, 0⟩ :=
    fun time _ => young_of_now policies ⟨false, 0, time⟩ rfl rfl rfl
  have hstale : isStale (policies j) 0 late = true := by simp [isStale, hlate]
  have hstart : Run (system policies) (fun c => Young policies c.shared)
      ⟨⟨none, 0, some 0, 0, 0⟩, fun _ => .Starting⟩ ⟨⟨none, 0, some 0, 0, 0⟩, fun _ => .Starting⟩ :=
    .start (hnone 0 0)
  -- `j` reads the age of the file of `k`, which then gives the lock back.
  have hheld := hstart.solo (Young policies) k rfl (fun _ _ hp => hp)
    (alone_acquires (policies k) (Young policies) rfl ⟨false, 0, (0 : Nat)⟩ rfl (hnone 0 0) (hyoung 0 0))
  dsimp only at hheld
  have hread := hheld.solo (Young policies) j (by simp [Function.update_of_ne, hjk]) (fun _ _ hp => hp)
    (alone_inspects (policies j) (Young policies) rfl rfl htimeout (hyoung 0 0))
  dsimp only at hread
  have hgone := hread.solo (Young policies) k (by simp [Function.update_of_ne, hjk.symm]) (fun _ _ hp => hp)
    (alone_returns (policies k) (Young policies) rfl rfl (hnone 0 0))
  dsimp only [Directory.withoutEntry] at hgone
  -- Time passes, and `i` creates a file of its own.
  have hlater : Directory.Passes ⟨none, 0, some 0, 0, 0⟩ ⟨none, 0, some late, 0, 0⟩ :=
    ⟨Nat.le_refl _, rfl, rfl, rfl⟩
  have hwaited := hgone.step (.surroundings hlater) (hnone late 0)
  have hagain := hwaited.solo (Young policies) i (by simp [Function.update_of_ne, hij, hik]) (fun _ _ hp => hp)
    (alone_acquires (policies i) (Young policies) rfl ⟨false, 0, late⟩ rfl (hnone late 0) (hyoung late 0))
  dsimp only at hagain
  -- `j` looks at the clock.
  have hboth := hagain.solo (Young policies) j (by simp [Function.update_of_ne, hij.symm, hjk]; rfl) (fun _ _ hp => hp)
    ((alone_removes (policies j) (Young policies) rfl rfl rfl hstale (hyoung late 0) (hnone late 1)).trans
      (alone_creates (policies j) (Young policies) rfl ⟨false, 0, late⟩ rfl _ (hyoung late 1)))
  refine ⟨_, _, ⟨fun _ => rfl, rfl, rfl⟩, hboth, ?_, ?_⟩
  · simp [Function.update_of_ne, hij]
  · simp

theorem young_files_do_not_exclude_three :
    ∃ c c', Fresh c ∧ Run (system fun _ : Fin 3 => ⟨1, 0⟩)
      (fun c => Young (fun _ : Fin 3 => ⟨1, 0⟩) c.shared) c c' ∧
      c'.own 0 = .Holding ∧ c'.own 1 = .Holding :=
  young_files_do_not_exclude (fun _ => ⟨1, 0⟩) (show (0 : Fin 3) ≠ 1 by decide)
    (show (0 : Fin 3) ≠ 2 by decide) (by decide) (by decide)

end LocalLock

end ProcmailRs
