import CanonIR.Proofs.Storage

/-! Runs of calls on a state, and their replay on a model of the state. A model has no
faults; it says what the replies and the next state ought to be. -/

namespace CanonIR

variable {γ ρ σ μ : Type}

/-- Carries out one call after the other and collects the replies. -/
def runAll (perform : γ → σ → Checked (ρ × σ)) : List γ → σ → Checked (List ρ × σ)
  | [], state => .ok ([], state)
  | call :: rest, state => do
    let (reply, state) ← perform call state
    let (replies, state) ← runAll perform rest state
    return (reply :: replies, state)

def replay (model : γ → μ → ρ × μ) : List γ → μ → List ρ × μ
  | [], state => ([], state)
  | call :: rest, state =>
    let (reply, state) := model call state
    let (replies, state) := replay model rest state
    (reply :: replies, state)

variable {perform : γ → σ → Checked (ρ × σ)} {model : γ → μ → ρ × μ}

theorem runAll_map {δ : Type} (translate : δ → γ) (calls : List δ) (state : σ) :
    runAll perform (calls.map translate) state =
      runAll (fun call => perform (translate call)) calls state := by
  induction calls generalizing state with
  | nil => rfl
  | cons call rest ih => simp only [List.map_cons, runAll, ih]

/-- The last call of a run, if it comes to that. -/
theorem runAll_snoc (calls : List γ) (call : γ) (start : σ) :
    runAll perform (calls ++ [call]) start = (do
      let (replies, state) ← runAll perform calls start
      let (reply, after) ← perform call state
      return (replies ++ [reply], after)) := by
  induction calls generalizing start with
  | nil =>
    cases performed : perform call start with
    | error fault => simp [runAll, performed]
    | ok result => simp [runAll, performed]
  | cons first rest ih =>
    cases began : perform first start with
    | error fault => simp [runAll, began]
    | ok result =>
      obtain ⟨reply, middle⟩ := result
      cases went : runAll perform rest middle with
      | error fault => simp [runAll, began, ih, went]
      | ok result =>
        obtain ⟨replies, state⟩ := result
        cases performed : perform call state <;> simp [runAll, began, ih, went, performed]

theorem runAll_concat {calls : List γ} {call : γ} {start state after : σ} {replies : List ρ} {reply : ρ}
    (ran : runAll perform calls start = .ok (replies, state))
    (performed : perform call state = .ok (reply, after)) :
    runAll perform (calls ++ [call]) start = .ok (replies ++ [reply], after) := by
  simp [runAll_snoc, ran, performed]

theorem length_runAll {calls : List γ} {start state : σ} {replies : List ρ}
    (ran : runAll perform calls start = .ok (replies, state)) : replies.length = calls.length := by
  induction calls generalizing start replies with
  | nil =>
    cases ran
    rfl
  | cons first rest ih =>
    obtain ⟨⟨reply, middle⟩, -, ran⟩ := Checked.bind_eq_ok.mp ran
    obtain ⟨⟨later, last⟩, went, ran⟩ := Checked.bind_eq_ok.mp ran
    cases ran
    exact congrArg (· + 1) (ih went)

/-- The moment of a reply: the calls before it, and those after it. -/
theorem runAll_split {calls : List γ} {call : γ} {start state : σ} {replies : List ρ} {reply : ρ}
    (ran : runAll perform calls start = .ok (replies, state))
    (replied : (call, reply) ∈ calls.zip replies) :
    ∃ early later said heard before after, runAll perform early start = .ok (said, before) ∧
      perform call before = .ok (reply, after) ∧ runAll perform later after = .ok (heard, state) := by
  induction calls generalizing start replies with
  | nil => cases replied
  | cons first rest ih =>
    obtain ⟨⟨answer, middle⟩, performed, ran⟩ := Checked.bind_eq_ok.mp ran
    obtain ⟨⟨others, last⟩, went, ran⟩ := Checked.bind_eq_ok.mp ran
    cases ran
    rcases List.mem_cons.mp replied with same | replied
    · cases same
      exact ⟨[], rest, [], others, start, middle, rfl, performed, went⟩
    · obtain ⟨early, later, said, heard, before, after, began, replied, ended⟩ := ih went replied
      exact ⟨first :: early, later, answer :: said, heard, before, after,
        by simp [runAll, performed, began], replied, ended⟩

/-- Two states give the same replies for as long as they are related, and stay so. -/
theorem runAll_related {τ : Type} {mirror : γ → τ → Checked (ρ × τ)} {relates : σ → τ → Prop}
    (step : ∀ call state image, relates state image → ∃ reply after later,
      perform call state = .ok (reply, after) ∧ mirror call image = .ok (reply, later) ∧
        relates after later)
    (calls : List γ) {state : σ} {image : τ} (related : relates state image) :
    ∃ replies after later, runAll perform calls state = .ok (replies, after) ∧
      runAll mirror calls image = .ok (replies, later) ∧ relates after later := by
  induction calls generalizing state image with
  | nil => exact ⟨[], state, image, rfl, rfl, related⟩
  | cons call rest ih =>
    obtain ⟨reply, middle, between, performed, mirrored, related⟩ := step call state image related
    obtain ⟨replies, after, later, ran, followed, related⟩ := ih related
    exact ⟨reply :: replies, after, later, by simp [runAll, performed, ran],
      by simp [runAll, mirrored, followed], related⟩

/-- A run goes through if every call does, and keeps what every call keeps. -/
theorem runAll_keeps {invariant : σ → Prop}
    (step : ∀ call state, invariant state →
      ∃ reply after, perform call state = .ok (reply, after) ∧ invariant after)
    (calls : List γ) {state : σ} (holds : invariant state) :
    ∃ replies after, runAll perform calls state = .ok (replies, after) ∧ invariant after := by
  have stays : ∀ call state image, state = image ∧ invariant state → ∃ reply after later,
      perform call state = .ok (reply, after) ∧ perform call image = .ok (reply, later) ∧
        after = later ∧ invariant after := by
    intro call state image ⟨same, holds⟩
    subst same
    obtain ⟨reply, after, performed, kept⟩ := step call state holds
    exact ⟨reply, after, after, performed, performed, rfl, kept⟩
  obtain ⟨replies, after, _, ran, -, -, kept⟩ := runAll_related stays calls ⟨rfl, holds⟩
  exact ⟨replies, after, ran, kept⟩

theorem replay_append (early later : List γ) (state : μ) :
    (replay model (early ++ later) state).2 = (replay model later (replay model early state).2).2 := by
  induction early generalizing state with
  | nil => rfl
  | cons call rest ih => exact ih _

theorem length_replay (calls : List γ) (state : μ) :
    (replay model calls state).1.length = calls.length := by
  induction calls generalizing state with
  | nil => rfl
  | cons call rest ih => exact congrArg (· + 1) (ih _)

/-- What no call takes away, no run takes away. -/
theorem replay_grows (grows : μ → μ → Prop) (refl : ∀ state, grows state state)
    (trans : ∀ {first second third}, grows first second → grows second third → grows first third)
    (step : ∀ call state, grows state (model call state).2) (calls : List γ) (state : μ) :
    grows state (replay model calls state).2 := by
  induction calls generalizing state with
  | nil => exact refl state
  | cons call rest ih => exact trans (step call state) (ih _)

/-- A run follows its replay if every call does. The calls need only succeed while the
model fits. -/
theorem runAll_replay {relates : σ → μ → Prop} {fits : μ → Prop} {allowed : γ → Prop}
    (step : ∀ call, allowed call → ∀ state image, relates state image → fits (model call image).2 →
      ∃ after, perform call state = .ok ((model call image).1, after) ∧
        relates after (model call image).2)
    (shrinks : ∀ call image, fits (model call image).2 → fits image)
    {calls : List γ} (lawful : ∀ call ∈ calls, allowed call) {state : σ} {image : μ}
    (related : relates state image) (fit : fits (replay model calls image).2) :
    ∃ after, runAll perform calls state = .ok ((replay model calls image).1, after) ∧
      relates after (replay model calls image).2 := by
  induction calls generalizing state image with
  | nil => exact ⟨state, rfl, related⟩
  | cons call rest ih =>
    have first : fits (model call image).2 :=
      replay_grows (fun old new => fits new → fits old) (fun _ => id)
        (fun earlier later new => earlier (later new)) shrinks rest _ fit
    obtain ⟨middle, performed, related⟩ := step call (lawful call (by simp)) state image related first
    obtain ⟨after, ran, related⟩ := ih (fun other member => lawful other (by simp [member])) related fit
    exact ⟨after, by simp [runAll, replay, performed, ran], related⟩

theorem getElem?_of_isPrefix {first second : List γ} (kept : first <+: second) {index : Nat} {item : γ}
    (found : first[index]? = some item) : second[index]? = some item := by
  obtain ⟨inside, rfl⟩ := List.getElem?_eq_some_iff.mp found
  exact List.prefix_iff_getElem?.mp kept index inside

section FirstOccurrences

variable [BEq γ] [LawfulBEq γ] {keys rest : List γ} {key : γ}

theorem eraseDups_of_nodup (distinct : keys.Nodup) : keys.eraseDups = keys := by
  induction keys with
  | nil => rfl
  | cons first rest ih =>
    obtain ⟨fresh, distinct⟩ := List.nodup_cons.mp distinct
    have kept : (rest.filter fun other => !other == first) = rest := by
      rw [List.filter_eq_self]
      intro other member
      have different : other ≠ first := by
        intro same
        subst same
        exact fresh member
      simpa using different
    rw [List.eraseDups_cons, kept, ih distinct]

theorem eraseDups_append_known (known : key ∈ keys) :
    (keys ++ key :: rest).eraseDups = (keys ++ rest).eraseDups := by
  simp [List.eraseDups_append, List.removeAll, known]

end FirstOccurrences

end CanonIR
