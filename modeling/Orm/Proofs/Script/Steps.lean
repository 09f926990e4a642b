import Orm.Executor
import Orm.Proofs.Outcome
import Orm.Verb.Writing

/-
Scripts: what a verb does, as a tree of the steps that it takes.

A step reports something, tells a hook about a write, sends a statement and goes on with the answer, or
reads the rows of a result one by one. A script says nothing about how the database answers, what
receivers do or when tokens fire; running it in an environment does. So a script says what a verb would
have gone on to do where it is stopped.

The steps of a run have the world before and after them. What comes of a statement is that the database
answers it, or it is not let through and nothing happens. A statement that is not let through is a step
too, one that leaves no trace; a row is a step if the rows before it could be read.
-/

namespace Orm

section

/-- Steps that end in a result and in the state that has been worked on. -/
inductive Script (S α : Type) where
  | done (result : Result α) (state : S)
  | report (l : Log) (next : Script S α)
  | announce (kind : HookKind) (event : WriteEvent) (next : Script S α)
  /-- A statement. If it fails, the script ends with its error in this state. -/
  | request (state : S) (kind : RequestKind) (sql : String) (args : List Value)
    (next : kind.Reply → Script S α)
  /-- The rows of a result, each with what reading it comes to. If one fails or the work is called
  off, the script ends in this state. -/
  | read (state : S) (rows : List (Result Unit)) (next : Script S α)

/-- Reads rows one by one, unless the work is called off. -/
def readRows (calledOff : CalledOff) : Nat → List (Result Unit) → Result Unit
  | _, [] => .ok ()
  | i, row :: rest => do
    if calledOff i then throw .cancelled
    row
    readRows calledOff (i + 1) rest

theorem readRows_cons (c : CalledOff) (i : Nat) (row : Result Unit) (rest : List (Result Unit)) :
    readRows c i (row :: rest) =
      if c i then .error .cancelled else row >>= fun _ => readRows c (i + 1) rest := by
  rw [readRows]
  cases c i <;> rfl

namespace Script

variable {S T α β : Type}

/-- A script and, if it succeeds, one that depends on it; `g` says how the second one's state looks
where the first one fails. -/
def andThen (g : S → T) (f : α → S → Script T β) : Script S α → Script T β
  | done (.ok a) s => f a s
  | done (.error e) s => done (.error e) (g s)
  | report l next => report l (next.andThen g f)
  | announce kind event next => announce kind event (next.andThen g f)
  | request s kind sql args next => request (g s) kind sql args fun a => (next a).andThen g f
  | read s rows next => read (g s) rows (next.andThen g f)

variable {ι ρ σ : Type}

def run (env : Environment ι ρ σ) (db : Executor) : Script S α → StateM (World ρ σ) (Result α × S)
  | done r s, w => ((r, s), w)
  | report l next, w => next.run env db { w with log := w.log ++ l }
  | announce kind event next, w =>
    next.run env db (outcome (Executor.announce env kind event) w).2
  | request s kind sql args next, w =>
    match outcome (db.run env kind sql args) w with
    | (.ok a, w) => (next a).run env db w
    | (.error e, w) => ((.error e, s), w)
  | read s rows next, w =>
    match outcome (db.watch env rows.length) w with
    | (.error e, w) => ((.error e, s), w)
    | (.ok calledOff, w) =>
      match readRows calledOff 0 rows with
      | .ok () => next.run env db w
      | .error e => ((.error e, s), w)

theorem run_andThen (env : Environment ι ρ σ) (db : Executor) (g : S → T)
    (f : α → S → Script T β) (p : Script S α) (w : World ρ σ) :
    (p.andThen g f).run env db w =
      match p.run env db w with
      | ((.ok a, s), w) => (f a s).run env db w
      | ((.error e, s), w) => ((.error e, g s), w) := by
  induction p generalizing w with
  | done r s => cases r <;> rfl
  | report l next ih => exact ih _
  | announce kind event next ih => exact ih _
  | request s kind sql args next ih =>
    simp only [andThen, run]
    split
    · exact ih _ _
    · rfl
  | read s rows next ih =>
    simp only [andThen, run]
    split
    · rfl
    · split
      · exact ih _
      · rfl

end Script

/-! ## Programs -/

/-- A script for each state that it may start from. -/
abbrev Program (S α : Type) := S → Script S α

namespace Program

variable {S α β : Type}

instance : Monad (Program S) where
  pure a s := .done (.ok a) s
  bind p f s := (p s).andThen id f

def ofResult (r : Result α) : Program S α := fun s => .done r s

def report (l : Log) : Program S Unit := fun s => .report l (.done (.ok ()) s)

def announce (kind : HookKind) (event : WriteEvent) : Program S Unit :=
  fun s => .announce kind event (.done (.ok ()) s)

def request (kind : RequestKind) (sql : String) (args : List Value) : Program S kind.Reply :=
  fun s => .request s kind sql args fun a => .done (.ok a) s

def read (rows : List (Result Unit)) : Program S Unit := fun s => .read s rows (.done (.ok ()) s)

def current : Program S S := fun s => .done (.ok s) s

end Program

/-- Work on a state that is kept when it fails. -/
abbrev Work (S ρ σ α : Type) := ExceptT Error (StateT S (StateM (World ρ σ))) α

/-- Work that leaves the state alone. -/
def Effect.lift {S ρ σ α : Type} (e : Effect ρ σ α) : Work S ρ σ α := ExceptT.mk (StateT.lift e.run)

section

variable {S ι ρ σ α β : Type}

/-- The program is what the work does. -/
def Program.Performs (env : Environment ι ρ σ) (db : Executor) (p : Program S α)
    (x : Work S ρ σ α) : Prop :=
  ∀ s w, (p s).run env db w = (x.run.run s).run w

variable {env : Environment ι ρ σ} {db : Executor}

namespace Program.Performs

theorem bind {p : Program S α} {x : Work S ρ σ α} {q : α → Program S β} {y : α → Work S ρ σ β}
    (hp : p.Performs env db x) (hq : ∀ a, (q a).Performs env db (y a)) :
    Program.Performs env db (p >>= q) (x >>= y) := by
  intro s w
  change ((p s).andThen id q).run env db w = _
  rw [Script.run_andThen, hp s w]
  change _ = (ExceptT.bindCont y ((x.run.run s).run w).1.1 ((x.run.run s).run w).1.2)
    ((x.run.run s).run w).2
  rcases (x.run.run s).run w with ⟨⟨_ | a, t⟩, v⟩
  · rfl
  · exact hq a t v

end Program.Performs

theorem Effect.lift_bind (e : Effect ρ σ α) (f : α → Effect ρ σ β) :
    Effect.lift (S := S) (e >>= f) = (e.lift >>= fun a => (f a).lift) := by
  funext s w
  change _ = (ExceptT.bindCont (fun a => (f a).lift) (outcome e w).1 s) (outcome e w).2
  change (((outcome (e >>= f) w).1, s), (outcome (e >>= f) w).2) = _
  rw [outcome_bind]
  rcases outcome e w with ⟨_ | a, v⟩ <;> rfl

end

end

section

variable {S T ι ρ σ α β : Type}

/-! ## Requests -/

open Executor (cancellable Response)

/-- The world once the database has answered a statement. -/
def Environment.answered (env : Environment ι ρ σ) (w : World ρ σ) (kind : RequestKind)
    (sql : String) (args : List Value) : World ρ σ :=
  { w with
    outside := (env.answer kind sql args w.outside).2
    fired := w.fired ++ (env.answer kind sql args w.outside).1.fires
    trace := w.trace ++ [.request kind sql args] }

/-- What a token makes of a request that would have come to `r`. -/
def observed (u : Token) (w : World ρ σ) (r : Response α × World ρ σ) : Response α × World ρ σ :=
  if u ∈ w.fired then (.failed .cancelled, w)
  else
    (if r.1.waiting = true ∧ u ∈ r.2.fired then { r.1 with result := .error .cancelled } else r.1,
      r.2)

section

variable {u : Token} {w : World ρ σ} {r : Response α × World ρ σ}

theorem observed_of_fired (h : u ∈ w.fired) : observed u w r = (.failed .cancelled, w) :=
  if_pos h

theorem observed_of_pending (h : u ∉ w.fired) (hp : r.1.waiting = true ∧ u ∈ r.2.fired) :
    observed u w r = ({ r.1 with result := .error .cancelled }, r.2) := by
  rw [observed, if_neg h, if_pos hp]

theorem observed_of_not_pending (h : u ∉ w.fired) (hp : ¬ (r.1.waiting = true ∧ u ∈ r.2.fired)) :
    observed u w r = r := by
  rw [observed, if_neg h, if_neg hp]

end

theorem cancellable_run (u : Token) (request : StateM (World ρ σ) (Response α)) (w : World ρ σ) :
    (cancellable (some u) request).run w = (pure (observed u w (request.run w)) : Id _) := by
  simp only [cancellable, StateT.run_bind, StateT.run_get, pure_bind, observed,
    List.contains_iff_mem]
  split
  · rfl
  · simp only [StateT.run_bind, StateT.run_get, pure_bind]
    change (StateT.run (m := Id) (ite _ _ _) (request.run w).2 : _ × World ρ σ) = _
    simp only [Bool.and_eq_true, List.contains_iff_mem]
    split <;> rfl

/-- A statement is answered by the database, or nothing happens. -/
theorem request_cases (env : Environment ι ρ σ) (kind : RequestKind) (sql : String)
    (args : List Value) (db : Executor) (w : World ρ σ) :
    ((db.request env kind sql args).run w).2 = w ∧
        ((db.request env kind sql args).run w).1.waiting = false ∨
      ((db.request env kind sql args).run w).2 = env.answered w kind sql args ∧
        ((db.request env kind sql args).run w).1.waiting =
          (env.answer kind sql args w.outside).1.waiting := by
  induction db with
  | connection => exact .inr ⟨rfl, rfl⟩
  | transaction id inner ih =>
    simp only [Executor.request, StateT.run_bind, StateT.run_get, pure_bind]
    split
    · exact ih
    · exact .inl ⟨rfl, rfl⟩
    · exact .inl ⟨rfl, rfl⟩
  | watched u inner ih =>
    rw [Executor.request, cancellable_run]
    generalize (inner.request env kind sql args).run w = r at ih
    change (observed u w r).2 = w ∧ (observed u w r).1.waiting = false ∨
      (observed u w r).2 = _ ∧ (observed u w r).1.waiting = _
    unfold observed
    split
    · exact .inl ⟨rfl, rfl⟩
    · split <;> exact ih

/-- The same of a verb's statement, which observes a token beside. -/
theorem cancellable_cases (env : Environment ι ρ σ) (kind : RequestKind) (sql : String)
    (args : List Value) (db : Executor) (token : Option Token) (w : World ρ σ) :
    ((cancellable token (db.request env kind sql args)).run w).2 = w ∨
      ((cancellable token (db.request env kind sql args)).run w).2 =
        env.answered w kind sql args := by
  have cases := (request_cases env kind sql args db w).imp And.left And.left
  cases token with
  | none => exact cases
  | some u =>
    rw [cancellable_run]
    generalize (db.request env kind sql args).run w = r at cases
    change (observed u w r).2 = w ∨ (observed u w r).2 = _
    unfold observed
    split
    · exact .inl rfl
    · exact cases

/-! ## Steps -/

/-- What a step does. -/
inductive Deed where
  | announce (kind : HookKind) (event : WriteEvent)
  | request (kind : RequestKind) (sql : String) (args : List Value)
  | row (i : Nat)

structure Step (ρ σ : Type) where
  deed : Deed
  before : World ρ σ
  after : World ρ σ

/-- The world in which a verb's statement is made, which has been reported. -/
def Environment.reporting (env : Environment ι ρ σ) (sql : String) (args : List Value)
    (w : World ρ σ) : World ρ σ :=
  { w with log := w.log ++ [{
      level := .debug
      target := "djorm::sql"
      message := "executing"
      fields := [("driver", .text env.driver), ("sql", .text sql), ("args", .count args.length)] }] }

/-- The world in which so many rows have been read. -/
def Environment.reading (env : Environment ι ρ σ) (w : World ρ σ) (rows : Nat) : World ρ σ :=
  { w with fired := w.fired ++ (List.range rows).flatMap (env.rowFires w.outside) }

namespace Script

variable (env : Environment ι ρ σ) (db : Executor)

/-- What comes of a verb's statement. -/
def sent (kind : RequestKind) (sql : String) (args : List Value) :
    StateM (World ρ σ) (Executor.Response kind.Reply) :=
  Executor.cancellable db.token? (db.request env kind sql args)

/-- The rows that are taken up. -/
def rowSteps (calledOff : CalledOff) (w : World ρ σ) : Nat → List (Result Unit) → List (Step ρ σ)
  | _, [] => []
  | i, row :: rest =>
    { deed := .row i, before := env.reading w i, after := env.reading w (i + 1) } ::
      if calledOff i then []
      else
        match row with
        | .ok () => rowSteps calledOff w (i + 1) rest
        | .error _ => []

/-- Whether a row counts as called off when the executor watches its token. -/
def watching (w : World ρ σ) : CalledOff := fun i =>
  match db.token? with
  | some token => (env.reading w (i + 1)).fired.contains token
  | none => false

def steps : Script S α → World ρ σ → List (Step ρ σ)
  | done _ _, _ => []
  | report l next, w => next.steps { w with log := w.log ++ l }
  | announce kind event next, w =>
    let v := (outcome (Executor.announce env kind event) w).2
    { deed := .announce kind event, before := w, after := v } :: next.steps v
  | request _ kind sql args next, w =>
    let w := env.reporting sql args w
    let (response, v) := (sent env db kind sql args).run w
    { deed := .request kind sql args, before := w, after := v } ::
      match response.result with
      | .ok a => (next a).steps v
      | .error _ => []
  | read _ rows next, w =>
    rowSteps env (watching env db w) w 0 rows ++
      match readRows (watching env db w) 0 rows with
      | .ok () => next.steps (env.reading w rows.length)
      | .error _ => []

theorem steps_request (s : S) (kind : RequestKind) (sql : String) (args : List Value)
    (next : kind.Reply → Script S α) (w : World ρ σ) :
    ∃ rest, (request s kind sql args next).steps env db w =
      ⟨.request kind sql args, env.reporting sql args w,
        ((sent env db kind sql args).run (env.reporting sql args w)).2⟩ :: rest := by
  rw [steps]
  rcases (sent env db kind sql args).run (env.reporting sql args w) with ⟨response, v⟩
  exact ⟨_, rfl⟩

section

variable {env db} {kind : RequestKind} {sql : String} {args : List Value} {w v : World ρ σ}
  {waiting : Bool}

theorem run_sent {r : Result kind.Reply}
    (h : (sent env db kind sql args).run (env.reporting sql args w) =
      (pure (⟨r, waiting⟩, v) : Id _)) :
    outcome (db.run env kind sql args) w = (r, v) :=
  congrArg (fun r : Executor.Response kind.Reply × World ρ σ => (r.1.result, r.2)) h

/-- A statement that is answered is a step, and the script goes on from there. -/
theorem request_of_ok {a : kind.Reply}
    (h : (sent env db kind sql args).run (env.reporting sql args w) =
      (pure (⟨.ok a, waiting⟩, v) : Id _)) (s : S) (next : kind.Reply → Script S α) :
    (request s kind sql args next).steps env db w =
        [⟨.request kind sql args, env.reporting sql args w, v⟩] ++ (next a).steps env db v ∧
      (request s kind sql args next).run env db w = (next a).run env db v := by
  rw [steps, h, run, run_sent h]
  exact ⟨rfl, rfl⟩

/-- A statement that fails is the last step. -/
theorem request_of_error {e : Error}
    (h : (sent env db kind sql args).run (env.reporting sql args w) =
      (pure (⟨.error e, waiting⟩, v) : Id _)) (s : S) (next : kind.Reply → Script S α) :
    (request s kind sql args next).steps env db w =
        [⟨.request kind sql args, env.reporting sql args w, v⟩] ∧
      (request s kind sql args next).run env db w = ((.error e, s), v) := by
  rw [steps, h, run, run_sent h]
  exact ⟨rfl, rfl⟩

end

theorem steps_read (s : S) (rows : List (Result Unit)) (next : Script S α) (w : World ρ σ) :
    ∃ rest, (read s rows next).steps env db w = rowSteps env (watching env db w) w 0 rows ++ rest :=
  ⟨_, rfl⟩

theorem run_read (s : S) (rows : List (Result Unit)) (next : Script S α) (w : World ρ σ) :
    (read s rows next).run env db w =
      match readRows (watching env db w) 0 rows with
      | .ok () => next.run env db (env.reading w rows.length)
      | .error e => ((.error e, s), env.reading w rows.length) :=
  rfl

section

variable {env db} {rows : List (Result Unit)} {w : World ρ σ}

/-- Rows that can all be read are steps, and the script goes on from there. -/
theorem read_of_ok (h : readRows (watching env db w) 0 rows = .ok ()) (s : S)
    (next : Script S α) :
    (read s rows next).steps env db w = rowSteps env (watching env db w) w 0 rows ++
        next.steps env db (env.reading w rows.length) ∧
      (read s rows next).run env db w = next.run env db (env.reading w rows.length) := by
  constructor
  · rw [steps, h]
  · rw [run_read, h]

/-- Where a row cannot be read, the steps end. -/
theorem read_of_error {e : Error} (h : readRows (watching env db w) 0 rows = .error e) (s : S)
    (next : Script S α) :
    (read s rows next).steps env db w = rowSteps env (watching env db w) w 0 rows ∧
      (read s rows next).run env db w = ((.error e, s), env.reading w rows.length) := by
  constructor
  · rw [steps, h, List.append_nil]
  · rw [run_read, h]

end

theorem steps_andThen (g : S → T) (f : α → S → Script T β) (p : Script S α) (w : World ρ σ) :
    (p.andThen g f).steps env db w = p.steps env db w ++
      match p.run env db w with
      | ((.ok a, s), v) => (f a s).steps env db v
      | ((.error _, _), _) => [] := by
  induction p generalizing w with
  | done r s => cases r <;> rfl
  | report l next ih => exact ih _
  | announce kind event next ih =>
    simp only [andThen, steps, run]
    exact congrArg _ (ih _)
  | request s kind sql args next ih =>
    rcases h : (sent env db kind sql args).run (env.reporting sql args w) with ⟨⟨e | a, _⟩, v⟩
    · rw [andThen, (request_of_error h _ _).1, (request_of_error h _ _).1, (request_of_error h _ _).2,
        List.append_nil]
    · rw [andThen, (request_of_ok h _ _).1, (request_of_ok h _ _).1, (request_of_ok h _ _).2, ih,
        List.append_assoc]
  | read s rows next ih =>
    rw [andThen]
    cases h : readRows (watching env db w) 0 rows with
    | error e =>
      rw [(read_of_error h _ _).1, (read_of_error h _ _).1, (read_of_error h _ _).2,
        List.append_nil]
    | ok u =>
      rw [(read_of_ok h _ _).1, (read_of_ok h _ _).1, (read_of_ok h _ _).2, ih, List.append_assoc]

section

variable {env db} {p : Script S α} {w v : World ρ σ} {s : S} {g : S → T} {f : α → S → Script T β}

theorem andThen_of_ok {a : α} (h : p.run env db w = ((.ok a, s), v)) :
    (p.andThen g f).steps env db w = p.steps env db w ++ (f a s).steps env db v ∧
      (p.andThen g f).run env db w = (f a s).run env db v := by
  rw [steps_andThen, run_andThen, h]
  exact ⟨rfl, rfl⟩

theorem andThen_of_error {e : Error} (h : p.run env db w = ((.error e, s), v)) :
    (p.andThen g f).steps env db w = p.steps env db w ∧
      (p.andThen g f).run env db w = ((.error e, g s), v) := by
  rw [steps_andThen, run_andThen, h]
  exact ⟨List.append_nil _, rfl⟩

end

end Script

end

end Orm
