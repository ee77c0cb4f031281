import Mathlib.Data.Multiset.DershowitzManna
import Mathlib.Logic.Relation

/-!
Computations that may abort, and loops with fuel.

A computation returns a value or the fault that stopped it. A loop runs its body from a
state until the body says it is done; it is given fuel, and running out of fuel is a fault
of its own, so that a loop which returns has really finished. The rules are the ones a
program proof needs: more fuel never changes a result, an invariant of the body holds of
every state the loop visits, and a body that descends along a well-founded relation finishes.
-/

namespace Ossa.Loop

/-- What stopped a computation: a way in which the source aborts, or too little fuel. -/
inductive Fault
  | unreachable (msg : String)
  | panic (msg : String)
  | todo (msg : String)
  | expect (msg : String)
  | unwrap
  | assertion
  | overflow
  | outOfBounds
  | outOfFuel
  deriving DecidableEq

abbrev Exec (α : Type) := Except Fault α

variable {α β σ ρ : Type}

lemma bind_eq_ok {x : Exec α} {f : α → Exec β} {b : β} :
    x >>= f = .ok b ↔ ∃ a, x = .ok a ∧ f a = .ok b := by
  cases x with
  | error e => simp [bind, Except.bind]
  | ok a => simp [bind, Except.bind]

@[simp] lemma ok_bind (a : α) (f : α → Exec β) : (.ok a : Exec α) >>= f = f a := rfl

@[simp] lemma pure_eq_ok (a : α) : (pure a : Exec α) = .ok a := rfl

@[simp] lemma throw_eq_error (e : Fault) : (throw e : Exec α) = .error e := rfl

/-- `Option::expect`, or the failing branch of a `let else`. -/
def orFault (e : Fault) : Option α → Exec α
  | some a => .ok a
  | none => .error e

@[simp] lemma orFault_some (e : Fault) (a : α) : orFault e (some a) = .ok a := rfl

@[simp] lemma orFault_eq_ok {e : Fault} {o : Option α} {a : α} :
    orFault e o = .ok a ↔ o = some a := by
  cases o <;> simp [orFault]

/-- Indexing into a vector. -/
def index (xs : List α) (i : ℕ) : Exec α := orFault .outOfBounds xs[i]?

lemma index_eq_ok {xs : List α} {i : ℕ} {a : α} : index xs i = .ok a ↔ xs[i]? = some a :=
  orFault_eq_ok

/-- Assignment to an entry of a vector. -/
def assign (xs : List α) (i : ℕ) (a : α) : Exec (List α) :=
  if i < xs.length then .ok (xs.set i a) else .error .outOfBounds

lemma assign_of_lt {xs : List α} {i : ℕ} (h : i < xs.length) (a : α) :
    assign xs i a = .ok (xs.set i a) := if_pos h

/-- The result of a computation that returns. -/
def value : (x : Exec α) → x.isOk = true → α
  | .ok a, _ => a

lemma eq_ok_value {x : Exec α} (h : x.isOk = true) : x = .ok (value x h) := by
  cases x with
  | error e => cases h
  | ok a => rfl

lemma exists_of_any {x : Exec α} {p : α → Bool} (h : x.toOption.any p = true) :
    ∃ a, x = .ok a ∧ p a = true := by
  cases x with
  | error e => cases h
  | ok a => exact ⟨a, rfl, h⟩

/-- The fault of a computation that stops. -/
def fault? : Exec α → Option Fault
  | .error e => some e
  | .ok _ => none

/-- What one iteration of a loop decides. -/
inductive Flow (σ ρ : Type)
  | next (s : σ)
  | done (r : ρ)

/-- Iterate `body` from `s`, for at most the given number of iterations. -/
def loop (body : σ → Exec (Flow σ ρ)) : ℕ → σ → Exec ρ
  | 0, _ => .error .outOfFuel
  | n + 1, s => body s >>= fun
    | .next s' => loop body n s'
    | .done r => .ok r

/-- The states a loop passes through from `s`. -/
inductive Visits (body : σ → Exec (Flow σ ρ)) (s : σ) : σ → Prop
  | refl : Visits body s s
  | next {t u : σ} : Visits body s t → body t = .ok (.next u) → Visits body s u

variable {body body' : σ → Exec (Flow σ ρ)} {s t u : σ} {r : ρ} {n m : ℕ}

lemma loop_next (h : body s = .ok (.next t)) : loop body (n + 1) s = loop body n t := by
  simp [loop, h]

lemma loop_done (h : body s = .ok (.done r)) : loop body (n + 1) s = .ok r := by
  simp [loop, h]

lemma loop_cases (h : loop body n s = .ok r) : ∃ m, n = m + 1 ∧
    (body s = .ok (.done r) ∨ ∃ t, body s = .ok (.next t) ∧ loop body m t = .ok r) := by
  cases n with
  | zero => cases h
  | succ m =>
    refine ⟨m, rfl, ?_⟩
    obtain ⟨f, hf, hr⟩ := bind_eq_ok.mp h
    cases f with
    | next t => exact Or.inr ⟨t, hf, hr⟩
    | done r' => cases hr; exact Or.inl hf

/-- **More fuel keeps a result**, also when the body itself is given more. -/
theorem loop_mono (hb : ∀ s f, body s = .ok f → body' s = .ok f) (hnm : n ≤ m)
    (h : loop body n s = .ok r) : loop body' m s = .ok r := by
  induction n generalizing s m with
  | zero => cases h
  | succ n ih =>
    obtain ⟨k, rfl⟩ : ∃ k, m = k + 1 := ⟨m - 1, by omega⟩
    obtain ⟨l, hl, hd | ⟨t, ht, hr⟩⟩ := loop_cases h
    · exact loop_done (hb _ _ hd)
    · obtain rfl : n = l := by omega
      rw [loop_next (hb _ _ ht)]
      exact ih (by omega) hr

lemma Visits.head (h : body s = .ok (.next t)) (hv : Visits body t u) : Visits body s u := by
  induction hv with
  | refl => exact .next .refl h
  | next _ ht ih => exact .next ih ht

lemma Visits.trans (h : Visits body s t) (h' : Visits body t u) : Visits body s u := by
  induction h' with
  | refl => exact h
  | next _ ht ih => exact .next ih ht

lemma Visits.loop (hv : Visits body s t) (h : loop body n s = .ok r) :
    ∃ m, Loop.loop body m t = .ok r := by
  induction hv with
  | refl => exact ⟨n, h⟩
  | next _ hnext ih =>
    obtain ⟨k, hk⟩ := ih
    obtain ⟨l, rfl, hd | ⟨t, ht, hr⟩⟩ := loop_cases hk
    · rw [hnext] at hd; cases hd
    · rw [hnext] at ht
      cases ht
      exact ⟨l, hr⟩

lemma Visits.mono (hb : ∀ s f, body s = .ok f → body' s = .ok f) (hv : Visits body s t) :
    Visits body' s t := by
  induction hv with
  | refl => exact .refl
  | next _ hnext ih => exact .next ih (hb _ _ hnext)

lemma loop_visits (h : loop body n s = .ok r) :
    ∃ t, Visits body s t ∧ body t = .ok (.done r) := by
  induction n generalizing s with
  | zero => cases h
  | succ n ih =>
    obtain ⟨l, hl, hd | ⟨t, ht, hr⟩⟩ := loop_cases h
    · exact ⟨s, .refl, hd⟩
    · obtain rfl : n = l := by omega
      obtain ⟨u, hu, hd⟩ := ih hr
      exact ⟨u, hu.head ht, hd⟩

/-- **The invariant rule**: what the body preserves holds of every state visited. -/
theorem Visits.invariant {I : σ → Prop} (hv : Visits body s t) (hs : I s)
    (hstep : ∀ s t, I s → body s = .ok (.next t) → I t) : I t := by
  induction hv with
  | refl => exact hs
  | next _ ht ih => exact hstep _ _ ih ht

/-- The invariant rule for the result of a loop. -/
theorem loop_invariant {I : σ → Prop} (h : loop body n s = .ok r) (hs : I s)
    (hstep : ∀ s t, I s → body s = .ok (.next t) → I t) :
    ∃ t, Visits body s t ∧ I t ∧ body t = .ok (.done r) := by
  obtain ⟨t, hv, hd⟩ := loop_visits h
  exact ⟨t, hv, hv.invariant hs hstep, hd⟩

/-- **The variant rule**: a body that lowers a measure, on its invariant, finishes within as
many iterations. -/
theorem loop_of_measure {I : σ → Prop} {P : ρ → Prop} (m : σ → ℕ) (hs : I s) (hn : m s < n)
    (hstep : ∀ s, I s → (∃ r, body s = .ok (.done r) ∧ P r) ∨
      ∃ t, body s = .ok (.next t) ∧ I t ∧ m t < m s) : ∃ r, loop body n s = .ok r ∧ P r := by
  induction n generalizing s with
  | zero => omega
  | succ n ih =>
    rcases hstep s hs with ⟨r, hr, hP⟩ | ⟨t, ht, hI, hlt⟩
    · exact ⟨r, loop_done hr, hP⟩
    · rw [loop_next ht]
      exact ih hI (by omega)

/-! ### Enough fuel -/

/-- More fuel keeps the result of `f`. -/
def Steady (f : ℕ → Exec α) : Prop := ∀ ⦃n m r⦄, n ≤ m → f n = .ok r → f m = .ok r

/-- With enough fuel, `f` returns `a`. -/
def Returns (f : ℕ → Exec α) (a : α) : Prop := ∃ n, f n = .ok a

lemma steady_const (x : Exec α) : Steady fun _ => x := fun _ _ _ _ h => h

lemma Steady.bind {f : ℕ → Exec α} {g : α → ℕ → Exec β} (hf : Steady f) (hg : ∀ a, Steady (g a)) :
    Steady fun n => f n >>= fun a => g a n := by
  intro n m r hnm h
  obtain ⟨a, ha, hr⟩ := bind_eq_ok.mp h
  exact bind_eq_ok.mpr ⟨a, hf hnm ha, hg a hnm hr⟩

lemma Steady.ite {c : Prop} [Decidable c] {f g : ℕ → Exec α} (hf : Steady f) (hg : Steady g) :
    Steady fun n => if c then f n else g n := by
  split_ifs
  · exact hf
  · exact hg

lemma Steady.foldlM {f : ℕ → σ → α → Exec σ} (hf : ∀ s a, Steady fun n => f n s a) (l : List α)
    (s : σ) : Steady fun n => l.foldlM (f n) s := by
  induction l generalizing s with
  | nil => exact steady_const _
  | cons a l ih =>
    simp only [List.foldlM_cons]
    exact (hf s a).bind ih

lemma Steady.loop {b : ℕ → σ → Exec (Flow σ ρ)} (hb : ∀ s, Steady fun n => b n s) (s : σ) :
    Steady fun n => loop (b n) n s :=
  fun _ _ _ hnm h => loop_mono (fun s _ => hb s hnm) hnm h

lemma returns_ok (a : α) : Returns (fun _ => (.ok a : Exec α)) a := ⟨0, rfl⟩

lemma Returns.unique {f : ℕ → Exec α} {a b : α} (hf : Steady f) (ha : Returns f a)
    (hb : Returns f b) : a = b := by
  obtain ⟨n, hn⟩ := ha
  obtain ⟨m, hm⟩ := hb
  exact Except.ok.inj ((hf (Nat.le_max_left n m) hn).symm.trans (hf (Nat.le_max_right n m) hm))

lemma Returns.bind {f : ℕ → Exec α} {g : α → ℕ → Exec β} {a : α} {b : β} (hf : Steady f)
    (hg : Steady (g a)) (ha : Returns f a) (hb : Returns (g a) b) :
    Returns (fun n => f n >>= fun a => g a n) b := by
  obtain ⟨n, hn⟩ := ha
  obtain ⟨m, hm⟩ := hb
  exact ⟨max n m, bind_eq_ok.mpr ⟨a, hf (Nat.le_max_left n m) hn, hg (Nat.le_max_right n m) hm⟩⟩

/-- A fold returns if every step does, on an invariant the steps keep. -/
theorem returns_foldlM {f : ℕ → σ → α → Exec σ} (hf : ∀ s a, Steady fun n => f n s a)
    {I : σ → Prop} (l : List α) (hs : I s)
    (hstep : ∀ s, ∀ a ∈ l, I s → ∃ t, Returns (fun n => f n s a) t ∧ I t) :
    ∃ t, Returns (fun n => l.foldlM (f n) s) t ∧ I t := by
  induction l generalizing s with
  | nil => exact ⟨s, returns_ok s, hs⟩
  | cons a l ih =>
    obtain ⟨t, ht, hI⟩ := hstep s a List.mem_cons_self hs
    obtain ⟨u, hu, hIu⟩ := ih hI fun s b hb => hstep s b (List.mem_cons_of_mem _ hb)
    exact ⟨u, by simpa only [List.foldlM_cons] using ht.bind (hf s a) (Steady.foldlM hf l t) hu, hIu⟩

/-- **The variant rule with fuel**: the body may itself need fuel. -/
theorem returns_loop {b : ℕ → σ → Exec (Flow σ ρ)} (hb : ∀ s, Steady fun n => b n s)
    {I : σ → Prop} {R : σ → σ → Prop} (hwf : WellFounded R) (hs : I s)
    (hstep : ∀ s, I s → (∃ r, Returns (fun n => b n s) (.done r)) ∨
      ∃ t, Returns (fun n => b n s) (.next t) ∧ I t ∧ R t s) :
    ∃ r, Returns (fun n => loop (b n) n s) r := by
  induction s using hwf.induction with
  | _ s ih =>
    rcases hstep s hs with ⟨r, n, hr⟩ | ⟨t, ⟨n, ht⟩, hI, hR⟩
    · exact ⟨r, n + 1, loop_done (hb s (Nat.le_succ n) hr)⟩
    · obtain ⟨r, m, hm⟩ := ih t hR hI
      have hn : b (max n m + 1) s = .ok (.next t) := hb s (by omega) ht
      have hrest : loop (b (max n m + 1)) (max n m) t = .ok r :=
        loop_mono (fun s _ => hb s (by omega)) (Nat.le_max_right n m) hm
      exact ⟨r, max n m + 1, (loop_next hn).trans hrest⟩

/-- What every step of a fold keeps holds of its result. -/
theorem foldlM_invariant {f : σ → α → Exec σ} {I : σ → Prop} {l : List α} (h : l.foldlM f s = .ok t)
    (hs : I s) (hstep : ∀ s t, ∀ a ∈ l, I s → f s a = .ok t → I t) : I t := by
  induction l generalizing s with
  | nil => cases h; exact hs
  | cons a l ih =>
    rw [List.foldlM_cons] at h
    obtain ⟨u, hu, ht⟩ := bind_eq_ok.mp h
    exact ih ht (hstep s u a List.mem_cons_self hs hu) fun s t b hb =>
      hstep s t b (List.mem_cons_of_mem _ hb)

/-- A fold whose steps go up in `R`, and establish for their element a property that going
up keeps. -/
theorem foldlM_each {f : σ → α → Exec σ} {R : σ → σ → Prop} {P : α → σ → Prop} {l : List α}
    {z s t : σ} (hrefl : ∀ s, R s s) (htrans : ∀ s t u, R s t → R t u → R s u)
    (hmono : ∀ a s t, R s t → P a s → P a t) (hs : R z s) (h : l.foldlM f s = .ok t)
    (hstep : ∀ u v, ∀ a ∈ l, R z u → f u a = .ok v → R u v ∧ P a v) :
    R s t ∧ ∀ a ∈ l, P a t := by
  induction l generalizing s with
  | nil => cases h; exact ⟨hrefl _, by simp⟩
  | cons a l ih =>
    rw [List.foldlM_cons] at h
    obtain ⟨u, hu, ht⟩ := bind_eq_ok.mp h
    obtain ⟨hsu, hP⟩ := hstep s u a List.mem_cons_self hs hu
    obtain ⟨hut, hall⟩ := ih (htrans _ _ _ hs hsu) ht fun u v b hb =>
      hstep u v b (List.mem_cons_of_mem _ hb)
    refine ⟨htrans _ _ _ hsu hut, fun b hb => ?_⟩
    rcases List.mem_cons.mp hb with rfl | hb
    · exact hmono _ _ _ hut hP
    · exact hall b hb

lemma mapM_eq_ok {f : α → Exec β} {l : List α} {r : List β} :
    l.mapM f = .ok r ↔ List.Forall₂ (fun a b => f a = .ok b) l r := by
  induction l generalizing r with
  | nil =>
    rw [List.mapM_nil, List.forall₂_nil_left_iff, pure_eq_ok, Except.ok.injEq, eq_comm]
  | cons a l ih =>
    rw [List.mapM_cons, bind_eq_ok, List.forall₂_cons_left_iff]
    constructor
    · rintro ⟨b, hb, h⟩
      obtain ⟨t, ht, heq⟩ := bind_eq_ok.mp h
      cases heq
      exact ⟨b, t, hb, ih.mp ht, rfl⟩
    · rintro ⟨b, t, hb, ht, rfl⟩
      exact ⟨b, hb, bind_eq_ok.mpr ⟨t, ih.mpr ht, rfl⟩⟩

lemma mem_of_mapM_eq_ok {f : α → Exec β} {l : List α} {r : List β} (h : l.mapM f = .ok r) {b : β}
    (hb : b ∈ r) : ∃ a ∈ l, f a = .ok b := by
  induction mapM_eq_ok.mp h with
  | nil => cases hb
  | cons hab hrest ih =>
    rcases List.mem_cons.mp hb with rfl | hb
    · exact ⟨_, List.mem_cons_self, hab⟩
    · obtain ⟨a, ha, hf⟩ := ih (mapM_eq_ok.mpr hrest) hb
      exact ⟨a, List.mem_cons_of_mem _ ha, hf⟩

lemma exists_mapM_ok {f : α → Exec β} {l : List α} (h : ∀ a ∈ l, ∃ b, f a = .ok b) :
    ∃ r, l.mapM f = .ok r := by
  induction l with
  | nil => exact ⟨[], rfl⟩
  | cons a l ih =>
    obtain ⟨b, hb⟩ := h a List.mem_cons_self
    obtain ⟨t, ht⟩ := ih fun a ha => h a (List.mem_cons_of_mem _ ha)
    exact ⟨b :: t, mapM_eq_ok.mpr (.cons hb (mapM_eq_ok.mp ht))⟩

/-! ### One fault that is allowed -/

/-- The computation returns a result that meets `P`, or stops in the fault `e`. -/
def ReturnsOr (e : Fault) (P : α → Prop) (x : Exec α) : Prop :=
  x = .error e ∨ ∃ a, x = .ok a ∧ P a

variable {e : Fault} {P : α → Prop} {Q : β → Prop} {x : Exec α} {a : α}

lemma returnsOr_ok (h : P a) : ReturnsOr e P (.ok a) := Or.inr ⟨a, rfl, h⟩

lemma ReturnsOr.bind {f : α → Exec β} (h : ReturnsOr e P x)
    (hf : ∀ a, P a → ReturnsOr e Q (f a)) : ReturnsOr e Q (x >>= f) := by
  obtain rfl | ⟨a, rfl, ha⟩ := h
  · exact Or.inl rfl
  · exact hf a ha

lemma ReturnsOr.of_ok (h : ReturnsOr e P x) (hx : x = .ok a) : P a := by
  subst hx
  obtain hc | ⟨a', heq, ha⟩ := h
  · cases hc
  · cases heq
    exact ha

/-! ### Faults that are left -/

/-- The computation only stops in faults that meet `E`. -/
def FaultsIn (E : Fault → Prop) (x : Exec α) : Prop := ∀ e, x = .error e → E e

variable {E : Fault → Prop}

@[simp] lemma faultsIn_ok (a : α) : FaultsIn E (.ok a : Exec α) := nofun

@[simp] lemma faultsIn_error : FaultsIn E (.error e : Exec α) ↔ E e := by
  simp [FaultsIn]

lemma FaultsIn.bind {f : α → Exec β} (h : FaultsIn E x) (hf : ∀ a, FaultsIn E (f a)) :
    FaultsIn E (x >>= f) := by
  cases x with
  | error e => exact faultsIn_error.mpr (h e rfl)
  | ok a => exact hf a

lemma FaultsIn.orFault (he : E e) (o : Option α) : FaultsIn E (orFault e o) := by
  cases o with
  | none => exact faultsIn_error.mpr he
  | some a => exact faultsIn_ok a

lemma FaultsIn.ite {c : Prop} [Decidable c] {y : Exec α} (hx : FaultsIn E x) (hy : FaultsIn E y) :
    FaultsIn E (if c then x else y) := by
  split
  · exact hx
  · exact hy

lemma FaultsIn.foldlM {f : σ → α → Exec σ} (hf : ∀ s a, FaultsIn E (f s a)) (l : List α) (s : σ) :
    FaultsIn E (l.foldlM f s) := by
  induction l generalizing s with
  | nil => exact faultsIn_ok s
  | cons a l ih =>
    rw [List.foldlM_cons]
    exact (hf s a).bind ih

lemma FaultsIn.mapM {f : α → Exec β} (hf : ∀ a, FaultsIn E (f a)) (l : List α) :
    FaultsIn E (l.mapM f) := by
  induction l with
  | nil => exact faultsIn_ok []
  | cons a l ih =>
    rw [List.mapM_cons]
    exact (hf a).bind fun b => ih.bind fun bs => faultsIn_ok (b :: bs)

/-! ### Counted loops -/

/-- A fold whose steps return, on an invariant the steps keep. -/
theorem foldlM_returns {f : σ → α → Exec σ} {I : σ → Prop} (l : List α) (hs : I s)
    (hstep : ∀ s, ∀ a ∈ l, I s → ∃ t, f s a = .ok t ∧ I t) :
    ∃ t, l.foldlM f s = .ok t ∧ I t := by
  obtain ⟨t, ⟨_, ht⟩, hI⟩ := returns_foldlM (f := fun _ => f) (fun s a => steady_const (f s a)) l hs
    fun s a ha hI => (hstep s a ha hI).imp fun t ht => ⟨⟨0, ht.1⟩, ht.2⟩
  exact ⟨t, ht, hI⟩

/-- **Counting up**: an invariant indexed by the next position. -/
theorem foldlM_range' {f : σ → ℕ → Exec σ} {I : ℕ → σ → Prop} {n m : ℕ} (hs : I n s)
    (hstep : ∀ s i, n ≤ i → i < n + m → I i s → ∃ t, f s i = .ok t ∧ I (i + 1) t) :
    ∃ t, (List.range' n m).foldlM f s = .ok t ∧ I (n + m) t := by
  induction m generalizing n s with
  | zero => exact ⟨s, rfl, hs⟩
  | succ m ih =>
    obtain ⟨t, ht, hI⟩ := hstep s n le_rfl (by omega) hs
    obtain ⟨u, hu, hIu⟩ := ih hI fun s i hn hi => hstep s i (by omega) (by omega)
    refine ⟨u, ?_, by rwa [show n + (m + 1) = n + 1 + m by omega]⟩
    rw [List.range'_succ, List.foldlM_cons, ht]
    exact hu

/-- **Counting down**: an invariant indexed by the position of the last step. -/
theorem foldlM_range_reverse {f : σ → ℕ → Exec σ} {I : ℕ → σ → Prop} {n : ℕ} (hs : I n s)
    (hstep : ∀ s i, i < n → I (i + 1) s → ∃ t, f s i = .ok t ∧ I i t) :
    ∃ t, (List.range n).reverse.foldlM f s = .ok t ∧ I 0 t := by
  induction n generalizing s with
  | zero => exact ⟨s, rfl, hs⟩
  | succ n ih =>
    obtain ⟨t, ht, hI⟩ := hstep s n (by omega) hs
    obtain ⟨u, hu, hIu⟩ := ih hI fun s i hi => hstep s i (by omega)
    refine ⟨u, ?_, hIu⟩
    rw [List.range_succ, List.reverse_append, List.reverse_singleton, List.singleton_append,
      List.foldlM_cons, ht]
    exact hu

/-! ### Work lists -/

/-- Work lists ordered by the ranks of their entries: an entry may be replaced by any number
of entries of smaller rank. -/
def Smaller (rank : α → ℕ) (q q' : Multiset α) : Prop :=
  Multiset.IsDershowitzMannaLT (q.map rank) (q'.map rank)

lemma smaller_wf (rank : α → ℕ) : WellFounded (Smaller rank) :=
  InvImage.wf _ Multiset.wellFounded_isDershowitzMannaLT

lemma smaller_replace (rank : α → ℕ) {a : α} {m : Multiset α} (q : Multiset α)
    (h : ∀ b ∈ m, rank b < rank a) : Smaller rank (q + m) (a ::ₘ q) := by
  refine ⟨q.map rank, m.map rank, {rank a}, by simp, by simp, ?_, ?_⟩
  · rw [Multiset.map_cons, Multiset.add_comm, Multiset.singleton_add]
  · intro y hy
    obtain ⟨b, hb, rfl⟩ := Multiset.mem_map.mp hy
    exact ⟨rank a, by simp, h b hb⟩

end Ossa.Loop
