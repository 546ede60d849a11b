import Kopiur.Lib.Runs

/-!
# Programs that call out

A program asks for one call after the other and goes on by the answers. A
system runs one program at a time on a state that its environment changes
between the calls, and a program can be cut short before any of its calls.
-/

namespace Kopiur.Lib

inductive Prog (Op : Type) (Ans : Op → Type) (α : Type)
  | done (a : α)
  | call (op : Op) (next : Ans op → Prog Op Ans α)

namespace Prog

variable {Op : Type} {Ans : Op → Type} {α β σ : Type}

def bind : Prog Op Ans α → (α → Prog Op Ans β) → Prog Op Ans β
  | done a, f => f a
  | call op next, f => call op fun a => (next a).bind f

instance : Monad (Prog Op Ans) where
  pure := done
  bind := bind

def perform (op : Op) : Prog Op Ans (Ans op) := call op done

@[simp] theorem done_bind (a : α) (f : α → Prog Op Ans β) : (done a >>= f) = f a := rfl

@[simp] theorem call_bind (op : Op) (next : Ans op → Prog Op Ans α) (f : α → Prog Op Ans β) :
    (call op next >>= f) = call op fun a => next a >>= f := rfl

@[simp] theorem perform_bind (op : Op) (f : Ans op → Prog Op Ans β) :
    (perform op >>= f) = call op f := rfl

def head? : Prog Op Ans α → Option Op
  | done _ => none
  | call op _ => some op

/-- Every call that may be asked for meets `ok`. -/
def All (ok : Op → Prop) : Prog Op Ans α → Prop
  | done _ => True
  | call op next => ok op ∧ ∀ a, (next a).All ok

@[simp] theorem all_done (ok : Op → Prop) (a : α) : (done a : Prog Op Ans α).All ok := trivial

@[simp] theorem all_pure (ok : Op → Prop) (a : α) : (pure a : Prog Op Ans α).All ok := trivial

@[simp] theorem all_call (ok : Op → Prop) (op : Op) (next : Ans op → Prog Op Ans α) :
    (call op next).All ok ↔ ok op ∧ ∀ a, (next a).All ok := Iff.rfl

@[simp] theorem all_perform (ok : Op → Prop) (op : Op) :
    (perform op : Prog Op Ans (Ans op)).All ok ↔ ok op := by
  simp [perform]

theorem All.bind {ok : Op → Prop} {p : Prog Op Ans α} {f : α → Prog Op Ans β} (hp : p.All ok)
    (hf : ∀ a, (f a).All ok) : (p >>= f).All ok := by
  induction p with
  | done a => exact hf a
  | call op next ih => exact ⟨hp.1, fun a => ih a (hp.2 a)⟩

def Idle (exec : σ → (op : Op) → Ans op → Option σ) (reply : σ → (op : Op) → Ans op) (s : σ) :
    Prog Op Ans α → Prop
  | done _ => True
  | call op next => exec s op (reply s op) = some s ∧ (next (reply s op)).Idle exec reply s

theorem Idle.of_bind {exec : σ → (op : Op) → Ans op → Option σ}
    {reply : σ → (op : Op) → Ans op} {s : σ} {p : Prog Op Ans α} {f : α → Prog Op Ans β}
    (h : (p >>= f).Idle exec reply s) : p.Idle exec reply s := by
  induction p with
  | done a => trivial
  | call op next ih => exact ⟨h.1, ih (reply s op) h.2⟩

instance decidableIdle [DecidableEq σ] (exec : σ → (op : Op) → Ans op → Option σ)
    (reply : σ → (op : Op) → Ans op) (s : σ) :
    (p : Prog Op Ans α) → Decidable (p.Idle exec reply s)
  | done _ => inferInstanceAs (Decidable True)
  | call op next =>
    have := decidableIdle exec reply s (next (reply s op))
    inferInstanceAs (Decidable (_ ∧ _))

end Prog

/-- What a call does with an answer, what the environment does, and the program
that starts from a state. -/
structure System (Op : Type) (Ans : Op → Type) (σ ι : Type) where
  exec : σ → (op : Op) → Ans op → Option σ
  env : σ → ι → Option σ
  pass : σ → Prog Op Ans Unit

inductive Move (Op : Type) (Ans : Op → Type) (ι : Type)
  | env (e : ι)
  | start
  | answer (op : Op) (a : Ans op)
  | crash

structure Running (Op : Type) (Ans : Op → Type) (σ : Type) where
  state : σ
  prog : Prog Op Ans Unit

variable {Op : Type} {Ans : Op → Type} {σ ι α β : Type}

def Running.idle (s : σ) : Running Op Ans σ := ⟨s, .done ()⟩

def System.step [DecidableEq Op] (m : System Op Ans σ ι) (w : Running Op Ans σ) :
    Move Op Ans ι → Option (Running Op Ans σ)
  | .env e => (m.env w.state e).map fun s => { w with state := s }
  | .start => match w.prog with
    | .done _ => some { w with prog := m.pass w.state }
    | .call .. => none
  | .answer op a => match w.prog with
    | .done _ => none
    | .call op' next =>
      if h : op = op' then (m.exec w.state op a).map fun s => ⟨s, next (h ▸ a)⟩ else none
  | .crash => some (.idle w.state)

/-- A system with the moves that are admitted, what is to hold at each point of
a program, and what a program may rely on between its calls. -/
structure Contract (Op : Type) (Ans : Op → Type) (σ ι : Type) extends System Op Ans σ ι where
  envOk : σ → ι → Prop
  startOk : σ → Prop
  answerOk : σ → (op : Op) → Ans op → Prop
  crashOk : Op → Prop
  /-- By the call that is next. -/
  inv : Option Op → σ → Prop
  rely : σ → σ → Prop

namespace Contract

variable (c : Contract Op Ans σ ι)

def ok (w : Running Op Ans σ) : Move Op Ans ι → Prop
  | .env e => c.envOk w.state e
  | .start => c.startOk w.state
  | .answer op a => c.answerOk w.state op a
  | .crash => ∀ op, w.prog.head? = some op → c.crashOk op

/-- Whatever the environment does, the invariant holds before each call, and
`post` at the end. -/
def Safe : Prog Op Ans α → (α → σ → Prop) → σ → Prop
  | .done a, post, s => ∀ t, c.rely s t → post a t
  | .call op next, post, s => ∀ t, c.rely s t → c.inv (some op) t ∧
    ∀ a u, c.answerOk t op a → c.exec t op a = some u → Safe (next a) post u

structure Upheld : Prop where
  refl : ∀ s, c.rely s s
  trans : ∀ s t u, c.rely s t → c.rely t u → c.rely s u
  env : ∀ op s e t, c.inv op s → c.envOk s e → c.env s e = some t → c.rely s t
  stable : ∀ s t, c.inv none s → c.rely s t → c.inv none t
  crash : ∀ op s, c.crashOk op → c.inv (some op) s → c.inv none s
  start : ∀ s, c.startOk s → c.inv none s → c.Safe (c.pass s) (fun _ => c.inv none) s

variable {c} {p : Prog Op Ans α} {post : α → σ → Prop} {s t : σ}

theorem Upheld.safe_stable (h : c.Upheld) (hsafe : c.Safe p post s) (hrely : c.rely s t) :
    c.Safe p post t := by
  cases p with
  | done a => exact fun u hu => hsafe u (h.trans _ _ _ hrely hu)
  | call op next => exact fun u hu => hsafe u (h.trans _ _ _ hrely hu)

theorem Upheld.safe_head (h : c.Upheld) {p : Prog Op Ans Unit}
    (hsafe : c.Safe p (fun _ => c.inv none) s) : c.inv p.head? s := by
  cases p with
  | done a => exact hsafe s (h.refl s)
  | call op next => exact (hsafe s (h.refl s)).1

theorem Safe.bind {f : α → Prog Op Ans β} {post' : β → σ → Prop} (hsafe : c.Safe p post s)
    (hrefl : ∀ s, c.rely s s) (hrest : ∀ a t, post a t → c.Safe (f a) post' t) :
    c.Safe (p >>= f) post' s := by
  induction p generalizing s with
  | done a => exact hrest a s (hsafe s (hrefl s))
  | call op next ih =>
    refine fun t ht => ⟨(hsafe t ht).1, fun a u ha hu => ?_⟩
    exact ih a ((hsafe t ht).2 a u ha hu)

theorem Upheld.done (h : c.Upheld) (hinv : c.inv none s) :
    c.Safe (.done ()) (fun _ => c.inv none) s := fun t ht => h.stable s t hinv ht

theorem Upheld.throughout [DecidableEq Op] (h : c.Upheld) (hs : c.inv none s)
    {w : Running Op Ans σ} (hrun : Reaches c.toSystem.step c.ok (.idle s) w) :
    c.inv w.prog.head? w.state := by
  refine h.safe_head (hrun.invariant
    (fun w => c.Safe w.prog (fun _ => c.inv none) w.state) (h.done hs) ?_)
  rintro ⟨s, p⟩ move w' hsafe hok hstep
  cases move with
  | env e =>
    obtain ⟨t, ht, rfl⟩ := Option.map_eq_some_iff.mp hstep
    exact h.safe_stable hsafe (h.env _ _ _ _ (h.safe_head hsafe) hok ht)
  | start =>
    cases p with
    | done a =>
      cases hstep
      exact h.start _ hok (h.safe_head hsafe)
    | call op next => cases hstep
  | answer op a =>
    cases p with
    | done a => cases hstep
    | call op' next =>
      simp only [System.step] at hstep
      split at hstep
      case isFalse => cases hstep
      case isTrue heq =>
        subst heq
        obtain ⟨t, ht, rfl⟩ := Option.map_eq_some_iff.mp hstep
        exact (hsafe s (h.refl s)).2 a t hok ht
  | crash =>
    cases hstep
    refine h.done ?_
    cases p with
    | done a => exact h.safe_head hsafe
    | call op next => exact h.crash op s (hok op rfl) (h.safe_head hsafe)

end Contract

end Kopiur.Lib
