import MatrixProgram.Error

/-!
# Actions

An action changes a state and answers a value, or fails with an error.  A failing
action keeps what it had already changed, so its result carries the state in both
cases.  Sequencing is that of the state monad with errors of the core library; this
file adds the ways in which the library starts actions and moves them to a larger
state.
-/

namespace MatrixProgram

/-- A step on a state `σ` which may fail and then keeps its earlier changes. -/
abbrev Action (σ : Type) (α : Type) : Type :=
  EStateM Error σ α

namespace Action

variable {σ τ α : Type}

/-- Run a check or a lookup that does not change the state. -/
def ofExcept (e : Except Error α) : Action σ α := fun s =>
  match e with
  | .ok a => .ok a s
  | .error err => .error err s

/-- Carry the state of a result over to another type of state. -/
def mapState (f : τ → σ) : EStateM.Result Error τ α → EStateM.Result Error σ α
  | .ok a t => .ok a (f t)
  | .error err t => .error err (f t)

/-- The state a result carries, whether it is an answer or an error. -/
def finalState : EStateM.Result Error σ α → σ
  | .ok _ s => s
  | .error _ s => s

/-- The answer or the error of a result, without its state. -/
def outcome : EStateM.Result Error σ α → Except Error α
  | .ok a _ => .ok a
  | .error err _ => .error err

/-- Fail unless a proposition holds. -/
def require (p : Prop) [Decidable p] (err : Error) : Except Error Unit :=
  if p then .ok () else .error err

/-! ## How actions run

One equation for each way of writing an action.  With them a proof follows an action
from state to state and never has to unfold the monad. -/

@[simp]
theorem pure_run (a : α) (s : σ) : (pure a : Action σ α) s = .ok a s :=
  rfl

/-- A sequence goes on from the answer and the state of its first part, or stops with its
error and state. -/
theorem bind_run {β : Type} (first : Action σ α) (next : α → Action σ β) (s : σ) :
    (first >>= next) s =
      match first s with
      | .ok a t => next a t
      | .error err t => .error err t := by
  change EStateM.bind first next s = _
  unfold EStateM.bind
  cases first s <;> rfl

/-- A sequence whose first part answers. -/
theorem bind_run_ok {β : Type} {first : Action σ α} {next : α → Action σ β} {s t : σ}
    {a : α} (h : first s = .ok a t) : (first >>= next) s = next a t := by
  rw [bind_run, h]

/-- A sequence whose first part fails. -/
theorem bind_run_error {β : Type} {first : Action σ α} {next : α → Action σ β} {s t : σ}
    {err : Error} (h : first s = .error err t) : (first >>= next) s = .error err t := by
  rw [bind_run, h]

/-- A sequence answers exactly when its first part answers and the rest answers from
there. -/
theorem bind_run_eq_ok_iff {β : Type} {first : Action σ α} {next : α → Action σ β}
    {s u : σ} {b : β} :
    (first >>= next) s = .ok b u ↔ ∃ a t, first s = .ok a t ∧ next a t = .ok b u := by
  rw [bind_run]
  cases first s with
  | ok a t =>
      constructor
      · intro h
        exact ⟨a, t, rfl, h⟩
      · rintro ⟨a', t', hFirst, hNext⟩
        cases hFirst
        exact hNext
  | error err t => simp

/-- Renaming the answer of an action keeps its state and its error. -/
theorem map_run {β : Type} (f : α → β) (act : Action σ α) (s : σ) :
    (f <$> act) s =
      match act s with
      | .ok a t => .ok (f a) t
      | .error err t => .error err t := by
  change EStateM.map f act s = _
  unfold EStateM.map
  cases act s <;> rfl

/-- Renaming the answer of an action does not change when it answers. -/
theorem map_run_eq_ok_iff {β : Type} {f : α → β} {act : Action σ α} {s t : σ} {b : β} :
    (f <$> act) s = .ok b t ↔ ∃ a, act s = .ok a t ∧ f a = b := by
  rw [map_run]
  cases act s with
  | ok a u =>
      simp only [EStateM.Result.ok.injEq]
      exact ⟨fun h => ⟨a, ⟨rfl, h.2⟩, h.1⟩, fun ⟨_, hRun, hAnswer⟩ =>
        ⟨hRun.1 ▸ hAnswer, hRun.2⟩⟩
  | error err u => simp

@[simp]
theorem get_run (s : σ) : (get : Action σ σ) s = .ok s s :=
  rfl

@[simp]
theorem set_run (t s : σ) : (set t : Action σ PUnit) s = .ok ⟨⟩ t :=
  rfl

@[simp]
theorem modify_run (f : σ → σ) (s : σ) : (modify f : Action σ PUnit) s = .ok ⟨⟩ (f s) :=
  rfl

@[simp]
theorem throw_run (err : Error) (s : σ) : (throw err : Action σ α) s = .error err s :=
  rfl

@[simp]
theorem forM_nil_run {β : Type} (f : β → Action σ PUnit) (s : σ) :
    ([] : List β).forM f s = .ok ⟨⟩ s :=
  rfl

/-- Doing an action for every member of a list begins with the first member. -/
theorem forM_cons_run {β : Type} (f : β → Action σ PUnit) (b : β) (rest : List β)
    (s : σ) : (b :: rest).forM f s = (f b >>= fun _ => rest.forM f) s :=
  rfl

/-! ## Checks and changes of state -/

@[simp]
theorem ofExcept_ok (a : α) (s : σ) : ofExcept (.ok a) s = .ok a s :=
  rfl

@[simp]
theorem ofExcept_error (err : Error) (s : σ) :
    (ofExcept (.error err) : Action σ α) s = .error err s :=
  rfl

@[simp]
theorem ofExcept_ok_bind {β : Type} (a : α) (next : α → Action σ β) :
    (ofExcept (.ok a) >>= next) = next a :=
  rfl

@[simp]
theorem finalState_mapState (f : τ → σ) (r : EStateM.Result Error τ α) :
    finalState (mapState f r) = f (finalState r) := by
  cases r <;> rfl

@[simp]
theorem outcome_mapState (f : τ → σ) (r : EStateM.Result Error τ α) :
    outcome (mapState f r) = outcome r := by
  cases r <;> rfl

@[simp]
theorem finalState_map {β : Type} (f : α → β) (act : Action σ α) (s : σ) :
    finalState ((f <$> act) s) = finalState (act s) := by
  rw [map_run]
  cases act s <;> rfl

/-- A check or a lookup answers as it does by itself and keeps the state. -/
theorem ofExcept_run_eq_ok_iff {e : Except Error α} {a : α} {s t : σ} :
    ofExcept e s = .ok a t ↔ e = .ok a ∧ t = s := by
  cases e with
  | ok b =>
      simp only [ofExcept_ok, EStateM.Result.ok.injEq, Except.ok.injEq]
      exact and_congr_right fun _ => eq_comm
  | error err => simp

/-! ## What it takes to pass a check -/

/-- A requirement is met exactly when its proposition holds. -/
theorem require_eq_ok_iff {p : Prop} [Decidable p] {err : Error} {u : Unit} :
    require p err = .ok u ↔ p := by
  unfold require
  by_cases h : p <;> simp [h]

@[simp]
theorem check_ok_bind {ε β : Type} (a : α) (next : α → Except ε β) :
    (Except.ok a >>= next) = next a :=
  rfl

@[simp]
theorem check_throw_eq_ok_iff {ε : Type} {err : ε} {a : α} :
    (throw err : Except ε α) = .ok a ↔ False := by
  simp [throw, throwThe, MonadExceptOf.throw]

@[simp]
theorem check_error_bind {ε β : Type} (err : ε) (next : α → Except ε β) :
    (Except.error err >>= next) = .error err :=
  rfl

/-- A sequence of checks passes exactly when its first part does and then the rest. -/
theorem check_bind_eq_ok_iff {ε β : Type} {first : Except ε α}
    {next : α → Except ε β} {b : β} :
    (first >>= next) = .ok b ↔ ∃ a, first = .ok a ∧ next a = .ok b := by
  cases first <;> simp [bind, Except.bind]

/-- Renaming the answer of a check neither passes nor fails it. -/
theorem check_map_eq_ok_iff {ε β : Type} {f : α → β} {check : Except ε α} {b : β} :
    f <$> check = .ok b ↔ ∃ a, check = .ok a ∧ f a = b := by
  cases check <;> simp [Functor.map, Except.map]

/-- Renaming the error of a check neither passes nor fails it. -/
theorem check_mapError_eq_ok_iff {ε δ : Type} {f : ε → δ} {check : Except ε α} {a : α} :
    check.mapError f = .ok a ↔ check = .ok a := by
  cases check with
  | ok b =>
      show (Except.ok b : Except δ α) = .ok a ↔ (Except.ok b : Except ε α) = .ok a
      simp only [Except.ok.injEq]
  | error err =>
      show (Except.error (f err) : Except δ α) = .ok a ↔ (Except.error err : Except ε α) = .ok a
      simp only [reduceCtorEq]

/-- A check of every member of a list passes exactly when it passes for each of them. -/
theorem check_forM_eq_ok_iff {ε β : Type} {check : β → Except ε Unit} {xs : List β}
    {u : Unit} : xs.forM check = .ok u ↔ ∀ x ∈ xs, check x = .ok () := by
  induction xs with
  | nil => simp [List.forM, pure, Except.pure]
  | cons x rest ih =>
      rw [List.forall_mem_cons, ← ih]
      change (check x >>= fun _ => rest.forM check) = .ok u ↔ _
      rw [check_bind_eq_ok_iff]
      exact ⟨fun ⟨_, hFirst, hRest⟩ => ⟨hFirst, hRest⟩, fun h => ⟨(), h⟩⟩

/-- A lookup for every member of a list answers exactly when each of them does, with the
answers in the same order. -/
theorem check_mapM_eq_ok_iff {ε β : Type} {lookup : β → Except ε α} {xs : List β}
    {ys : List α} : xs.mapM lookup = .ok ys ↔ xs.map lookup = ys.map .ok := by
  induction xs generalizing ys with
  | nil => cases ys <;> simp [pure, Except.pure]
  | cons x rest ih =>
      rw [List.mapM_cons, check_bind_eq_ok_iff]
      cases ys with
      | nil => simp [check_bind_eq_ok_iff, pure, Except.pure]
      | cons y ys =>
          simp only [check_bind_eq_ok_iff, ih, List.map_cons, List.cons.injEq]
          constructor
          · rintro ⟨a, hFirst, as, hRest, hEq⟩
            cases hEq
            exact ⟨hFirst, hRest⟩
          · rintro ⟨hFirst, hRest⟩
            exact ⟨y, hFirst, ys, hRest, rfl⟩

/-- The answers for a list are the answers for its members. -/
theorem mem_check_mapM_iff {ε β : Type} {lookup : β → Except ε α} {xs : List β}
    {ys : List α} (h : xs.mapM lookup = .ok ys) {y : α} :
    y ∈ ys ↔ ∃ x ∈ xs, lookup x = .ok y := by
  have hMap := check_mapM_eq_ok_iff.mp h
  calc
    y ∈ ys ↔ .ok y ∈ ys.map (Except.ok (ε := ε)) := by simp
    _ ↔ .ok y ∈ xs.map lookup := by rw [hMap]
    _ ↔ ∃ x ∈ xs, lookup x = .ok y := by simp

/-- Two lookups that do the same for each member of a list do the same for the list. -/
theorem check_mapM_congr {ε β : Type} {lookup lookup' : β → Except ε α} {xs : List β}
    (h : ∀ x ∈ xs, lookup x = lookup' x) : xs.mapM lookup = xs.mapM lookup' := by
  induction xs with
  | nil => rfl
  | cons x rest ih =>
      rw [List.mapM_cons, List.mapM_cons, h x List.mem_cons_self,
        ih fun y hy => h y (List.mem_cons_of_mem _ hy)]

/-- Two checks that do the same for each member of a list do the same for the list. -/
theorem check_forM_congr {ε β : Type} {check check' : β → Except ε Unit} {xs : List β}
    (h : ∀ x ∈ xs, check x = check' x) : xs.forM check = xs.forM check' := by
  induction xs with
  | nil => rfl
  | cons x rest ih =>
      change (check x >>= fun _ => rest.forM check) = (check' x >>= fun _ => rest.forM check')
      rw [h x List.mem_cons_self, ih fun y hy => h y (List.mem_cons_of_mem _ hy)]

/-- A lookup that answers for each member of a list answers for the list. -/
theorem exists_check_mapM {ε β : Type} {lookup : β → Except ε α} {xs : List β}
    (h : ∀ x ∈ xs, ∃ a, lookup x = .ok a) : ∃ ys, xs.mapM lookup = .ok ys := by
  induction xs with
  | nil => exact ⟨[], rfl⟩
  | cons x rest ih =>
      obtain ⟨a, hFirst⟩ := h x List.mem_cons_self
      obtain ⟨as, hRest⟩ := ih fun y hy => h y (List.mem_cons_of_mem _ hy)
      exact ⟨a :: as, by simp [List.mapM_cons, hFirst, hRest, bind, Except.bind, pure,
        Except.pure]⟩

/-! ## Checks that fail -/

/-- A sequence of checks fails where its first part does, or else where the rest does. -/
theorem check_bind_eq_error_iff {ε β : Type} {err : ε} {first : Except ε α}
    {next : α → Except ε β} :
    (first >>= next) = .error err ↔
      first = .error err ∨ ∃ a, first = .ok a ∧ next a = .error err := by
  cases first <;> simp [bind, Except.bind]

/-- The errors of a check whose error is renamed. -/
theorem check_mapError_eq_error_iff {ε δ : Type} {f : ε → δ} {check : Except ε α} {d : δ} :
    check.mapError f = .error d ↔ ∃ err, check = .error err ∧ f err = d := by
  cases check with
  | ok a =>
      show (Except.ok a : Except δ α) = .error d ↔ _
      simp
  | error err =>
      show (Except.error (f err) : Except δ α) = .error d ↔ _
      simp

/-- A check of every member of a list fails at one of them. -/
theorem exists_check_forM_eq_error {ε β : Type} {err : ε} {check : β → Except ε Unit}
    {xs : List β} (h : xs.forM check = .error err) : ∃ x ∈ xs, check x = .error err := by
  induction xs with
  | nil => cases h
  | cons x rest ih =>
      change (check x >>= fun _ => rest.forM check) = .error err at h
      rcases check_bind_eq_error_iff.mp h with hFirst | ⟨-, -, hRest⟩
      · exact ⟨x, List.mem_cons_self, hFirst⟩
      · obtain ⟨y, hMem, hFails⟩ := ih hRest
        exact ⟨y, List.mem_cons_of_mem _ hMem, hFails⟩

/-- A lookup for every member of a list fails at one of them. -/
theorem exists_check_mapM_eq_error {ε β : Type} {err : ε} {lookup : β → Except ε α}
    {xs : List β} (h : xs.mapM lookup = .error err) : ∃ x ∈ xs, lookup x = .error err := by
  induction xs with
  | nil => cases h
  | cons x rest ih =>
      rw [List.mapM_cons] at h
      rcases check_bind_eq_error_iff.mp h with hFirst | ⟨a, -, hNext⟩
      · exact ⟨x, List.mem_cons_self, hFirst⟩
      rcases check_bind_eq_error_iff.mp hNext with hRest | ⟨as, -, hDone⟩
      · obtain ⟨y, hMem, hFails⟩ := ih hRest
        exact ⟨y, List.mem_cons_of_mem _ hMem, hFails⟩
      · cases hDone

/-- A check that goes through a list fails at one of its members. -/
theorem exists_check_foldlM_eq_error {ε β : Type} {err : ε} {step : α → β → Except ε α}
    {xs : List β} {a : α} (h : xs.foldlM step a = .error err) :
    ∃ b, ∃ x ∈ xs, step b x = .error err := by
  induction xs generalizing a with
  | nil => cases h
  | cons x rest ih =>
      rw [List.foldlM_cons] at h
      rcases check_bind_eq_error_iff.mp h with hFirst | ⟨b, -, hRest⟩
      · exact ⟨a, x, List.mem_cons_self, hFirst⟩
      · obtain ⟨c, y, hMem, hFails⟩ := ih hRest
        exact ⟨c, y, List.mem_cons_of_mem _ hMem, hFails⟩

end Action

end MatrixProgram
