import Mathlib.Order.Defs.Unbundled
import Mathlib.Tactic.Common

/-!
# Clients of an interface

A `Client` asks queries of an interface and goes on with the answers, notes what it sees on the way, and ends with a
value or an exception. `run` plays it against an implementation. `Ensures` says what holds of every run when an answer is
only known to mean something about an abstract state: it is the weakest precondition of the client over that
specification. If an implementation refines the specification then a client does in front of it what it ensures
(`run_ensures`).
-/

/-- A program over queries `Q` with answers `A`, notes `ε` and exceptions `χ`. -/
inductive Client (Q : Type) (A : Q → Type) (ε χ α : Type) where
  | done (a : α)
  | fail (e : χ)
  | note (e : ε) (next : Client Q A ε χ α)
  | ask (q : Q) (next : Except χ (A q) → Client Q A ε χ α)

namespace Client

variable {Q : Type} {A : Q → Type} {ε χ α β γ : Type}

/-- An exception skips the continuation. -/
def andThen : Client Q A ε χ α → (α → Client Q A ε χ β) → Client Q A ε χ β
  | done a, f => f a
  | fail e, _ => fail e
  | note e next, f => note e (next.andThen f)
  | ask q next, f => ask q fun r => (next r).andThen f

instance : Monad (Client Q A ε χ) where
  pure := done
  bind := andThen

def ofExcept : Except χ α → Client Q A ε χ α
  | .ok a => done a
  | .error e => fail e

/-- A query whose exception ends the client. -/
def call (q : Q) : Client Q A ε χ (A q) := ask q ofExcept

/-- A query with its outcome as a value. -/
def attempt (q : Q) : Client Q A ε χ (Except χ (A q)) := ask q done

def tell (e : ε) : Client Q A ε χ Unit := note e (done ())

/-- Collects the results of a client for each element, in order. -/
def collect : List α → (α → Client Q A ε χ β) → Client Q A ε χ (List β)
  | [], _ => done []
  | a :: l, f => (f a).andThen fun b => (collect l f).andThen fun bs => done (b :: bs)

/-! ### Running a client -/

variable {S V : Type}

/-- What the client noted, how it ended, and the state of the implementation. -/
def run (answer : (q : Q) → S → Except χ (A q) × S) : Client Q A ε χ α → S → List ε × Except χ α × S
  | done a, s => ([], .ok a, s)
  | fail e, s => ([], .error e, s)
  | note e next, s =>
    let (l, r, s') := run answer next s
    (e :: l, r, s')
  | ask q next, s =>
    let (r, s') := answer q s
    run answer (next r) s'

/-- Every query of the run satisfies `P` in the state in which it is asked. -/
def EachQuery (answer : (q : Q) → S → Except χ (A q) × S) (P : Q → S → Prop) : Client Q A ε χ α → S → Prop
  | done _, _ => True
  | fail _, _ => True
  | note _ next, s => EachQuery answer P next s
  | ask q next, s => P q s ∧ EachQuery answer P (next (answer q s).1) (answer q s).2

instance decidableEachQuery (answer : (q : Q) → S → Except χ (A q) × S) (P : Q → S → Prop) [∀ q s, Decidable (P q s)] :
    (p : Client Q A ε χ α) → (s : S) → Decidable (p.EachQuery answer P s)
  | done _, _ => isTrue trivial
  | fail _, _ => isTrue trivial
  | note _ next, s => decidableEachQuery answer P next s
  | ask q next, s =>
    let _ := decidableEachQuery answer P (next (answer q s).1) (answer q s).2
    inferInstanceAs (Decidable (P q s ∧ EachQuery answer P (next (answer q s).1) (answer q s).2))

theorem EachQuery.mono {answer : (q : Q) → S → Except χ (A q) × S} {P P' : Q → S → Prop} (hP : ∀ q s, P q s → P' q s)
    {p : Client Q A ε χ α} {s : S} (h : p.EachQuery answer P s) : p.EachQuery answer P' s := by
  induction p generalizing s with
  | done a => trivial
  | fail e => trivial
  | note e next ih => exact ih h
  | ask q next ih => exact ⟨hP q s h.1, ih _ h.2⟩

/-! ### What a client ensures -/

section

variable (means : (q : Q) → Except χ (A q) → V → V → Prop)

/-- Whatever the answers, if each means what it says then the client ends with `post`, after the notes `l`. -/
def Ensures : Client Q A ε χ α → (List ε → Except χ α → V → Prop) → List ε → V → Prop
  | done a, post, l, v => post l (.ok a) v
  | fail e, post, l, v => post l (.error e) v
  | note e next, post, l, v => Ensures next post (l ++ [e]) v
  | ask q next, post, l, v => ∀ r v', means q r v v' → Ensures (next r) post l v'

end

variable {means : (q : Q) → Except χ (A q) → V → V → Prop} {p : Client Q A ε χ α} {l : List ε} {v : V}

theorem ensures_mono {post post' : List ε → Except χ α → V → Prop} (h : p.Ensures means post l v)
    (hpost : ∀ l r v, post l r v → post' l r v) : p.Ensures means post' l v := by
  induction p generalizing l v with
  | done a => exact hpost _ _ _ h
  | fail e => exact hpost _ _ _ h
  | note e next ih => exact ih h
  | ask q next ih => exact fun r v' hr => ih r (h r v' hr)

/-- What is to hold behind a client that a continuation follows. -/
def Rest (means : (q : Q) → Except χ (A q) → V → V → Prop) (f : α → Client Q A ε χ β)
    (post : List ε → Except χ β → V → Prop) (l : List ε) (r : Except χ α) (v : V) : Prop :=
  match r with
  | .ok a => (f a).Ensures means post l v
  | .error e => post l (.error e) v

theorem ensures_andThen {f : α → Client Q A ε χ β} {post : List ε → Except χ β → V → Prop}
    (h : p.Ensures means (Rest means f post) l v) : (p.andThen f).Ensures means post l v := by
  induction p generalizing l v with
  | done a => exact h
  | fail e => exact h
  | note e next ih => exact ih h
  | ask q next ih => exact fun r v' hr => ih r (h r v' hr)

theorem ensures_bind {f : α → Client Q A ε χ β} {post : List ε → Except χ β → V → Prop}
    (h : p.Ensures means (Rest means f post) l v) : (p >>= f).Ensures means post l v := ensures_andThen h

theorem ensures_call {q : Q} {f : A q → Client Q A ε χ β} {post : List ε → Except χ β → V → Prop}
    (herror : ∀ e v', means q (.error e) v v' → post l (.error e) v')
    (hok : ∀ a v', means q (.ok a) v v' → (f a).Ensures means post l v') : (call q >>= f).Ensures means post l v := by
  intro r v' hr
  cases r with
  | error e => exact herror e v' hr
  | ok a => exact hok a v' hr

theorem ensures_tell {e : ε} {f : Unit → Client Q A ε χ β} {post : List ε → Except χ β → V → Prop}
    (h : (f ()).Ensures means post (l ++ [e]) v) : (tell e >>= f).Ensures means post l v := h

/-- An invariant of the loop that holds for the elements done and the results so far. -/
theorem ensures_collect {xs : List α} {f : α → Client Q A ε χ β} {post : List ε → Except χ (List β) → V → Prop}
    (inv : List α → List β → List ε → V → Prop)
    (hstep : ∀ done x rest ys l v, xs = done ++ x :: rest → inv done ys l v →
      (f x).Ensures means (fun l r v => (∀ y, r = .ok y → inv (done ++ [x]) (ys ++ [y]) l v) ∧
        ∀ e, r = .error e → post l (.error e) v) l v)
    (hend : ∀ ys l v, inv xs ys l v → post l (.ok ys) v) (h : inv [] [] l v) :
    (collect xs f).Ensures means post l v := by
  suffices hrest : ∀ rest done ys post' l v, xs = done ++ rest → inv done ys l v →
      (∀ zs l v, inv xs (ys ++ zs) l v → post' l (.ok zs) v) →
      (∀ e l v, post l (.error e) v → post' l (.error e) v) → (collect rest f).Ensures means post' l v from
    hrest xs [] [] post l v rfl h hend fun _ _ _ he => he
  intro rest
  induction rest with
  | nil =>
    intro done ys post' l v hxs hinv hok _
    rw [List.append_nil] at hxs
    refine hok [] l v ?_
    rw [List.append_nil, hxs]
    exact hinv
  | cons x rest ih =>
    intro done ys post' l v hxs hinv hok herror
    refine ensures_andThen (ensures_mono (hstep done x rest ys l v hxs hinv) fun l r v hr => ?_)
    cases r with
    | error e => exact herror e l v (hr.2 e rfl)
    | ok y =>
      refine ensures_andThen (ih (done ++ [x]) (ys ++ [y]) _ l v ?_ (hr.1 y rfl) (fun zs l v hzs => ?_) herror)
      · rw [hxs, List.append_assoc]
        rfl
      · refine hok (y :: zs) l v ?_
        rwa [List.append_assoc] at hzs

/-! ### Parts that only move by a relation -/

/-- Only notes of this kind are new. -/
def Since (kind : ε → Prop) (l l' : List ε) : Prop := ∃ new, l' = l ++ new ∧ ∀ e ∈ new, kind e

theorem Since.refl (kind : ε → Prop) (l : List ε) : Since kind l l :=
  ⟨[], (List.append_nil l).symm, fun _ h => absurd h List.not_mem_nil⟩

theorem Since.trans {kind : ε → Prop} {l l' l'' : List ε} (h : Since kind l l') (h' : Since kind l' l'') :
    Since kind l l'' := by
  obtain ⟨new, rfl, hnew⟩ := h
  obtain ⟨new', rfl, hnew'⟩ := h'
  refine ⟨new ++ new', List.append_assoc .., fun e he => ?_⟩
  exact (List.mem_append.mp he).elim (hnew e) (hnew' e)

/-- Whatever the answers, the state moves by the relation, and the notes are of this kind. -/
def KeepsTo (means : (q : Q) → Except χ (A q) → V → V → Prop) (R : V → V → Prop) (kind : ε → Prop)
    (p : Client Q A ε χ α) : Prop :=
  ∀ l v, p.Ensures means (fun l' _ v' => R v v' ∧ Since kind l l') l v

section

variable {R : V → V → Prop} [IsPreorder V R] {kind : ε → Prop}

theorem keepsTo_pure (a : α) : KeepsTo means R kind (pure a : Client Q A ε χ α) := fun l v => ⟨refl_of R v, .refl kind l⟩

theorem keepsTo_fail (e : χ) : KeepsTo means R kind (fail e : Client Q A ε χ α) := fun l v => ⟨refl_of R v, .refl kind l⟩

theorem keepsTo_ofExcept (r : Except χ α) : KeepsTo means R kind (ofExcept r : Client Q A ε χ α) := by
  cases r with
  | ok a => exact keepsTo_pure a
  | error e => exact keepsTo_fail e

theorem keepsTo_tell {e : ε} (he : kind e) : KeepsTo means R kind (tell e : Client Q A ε χ Unit) := by
  intro l v
  refine ⟨refl_of R v, [e], rfl, fun e' he' => ?_⟩
  rw [List.mem_singleton.mp he']
  exact he

omit [IsPreorder V R] in
theorem keepsTo_attempt {q : Q} (h : ∀ r v v', means q r v v' → R v v') :
    KeepsTo means R kind (attempt q : Client Q A ε χ (Except χ (A q))) :=
  fun l v r v' hr => ⟨h r v v' hr, .refl kind l⟩

omit [IsPreorder V R] in
theorem keepsTo_call {q : Q} (h : ∀ r v v', means q r v v' → R v v') :
    KeepsTo means R kind (call q : Client Q A ε χ (A q)) := by
  intro l v r v' hr
  cases r with
  | ok a => exact ⟨h _ v v' hr, .refl kind l⟩
  | error e => exact ⟨h _ v v' hr, .refl kind l⟩

theorem keepsTo_bind {f : α → Client Q A ε χ β} (hp : KeepsTo means R kind p) (hf : ∀ a, KeepsTo means R kind (f a)) :
    KeepsTo means R kind (p >>= f) := by
  intro l v
  refine ensures_bind (ensures_mono (hp l v) fun l' r v' h => ?_)
  cases r with
  | error e => exact h
  | ok a =>
    refine ensures_mono (hf a l' v') fun l'' r v'' h' => ?_
    exact ⟨trans_of R h.1 h'.1, h.2.trans h'.2⟩

theorem keepsTo_collect {xs : List α} {f : α → Client Q A ε χ β} (hf : ∀ x ∈ xs, KeepsTo means R kind (f x)) :
    KeepsTo means R kind (collect xs f) := by
  induction xs with
  | nil => exact keepsTo_pure []
  | cons x xs ih =>
    refine keepsTo_bind (hf x List.mem_cons_self) fun y => ?_
    exact keepsTo_bind (ih fun x hx => hf x (List.mem_cons_of_mem _ hx)) fun ys => keepsTo_pure _

omit [IsPreorder V R] in
theorem ensures_keepsTo {f : α → Client Q A ε χ β} {post : List ε → Except χ β → V → Prop} (hp : KeepsTo means R kind p)
    (herror : ∀ e l' v', Since kind l l' → post l' (.error e) v')
    (hok : ∀ a l' v', Since kind l l' → R v v' → (f a).Ensures means post l' v') : (p >>= f).Ensures means post l v := by
  refine ensures_bind (ensures_mono (hp l v) fun l' r v' h => ?_)
  cases r with
  | error e => exact herror e l' v' h.2
  | ok a => exact hok a l' v' h.2 h.1

end

/-! ### Refinement -/

/-- In front of an implementation whose answers mean what the specification says, a client does what it ensures. -/
theorem run_ensures {answer : (q : Q) → S → Except χ (A q) × S} {view : S → V} {Rep : S → Prop} {P : Q → S → Prop}
    (hanswer : ∀ q s, Rep s → P q s → Rep (answer q s).2 ∧ means q (answer q s).1 (view s) (view (answer q s).2))
    {post : List ε → Except χ α → V → Prop} {s : S} (hs : Rep s) (hP : p.EachQuery answer P s)
    (h : p.Ensures means post l (view s)) :
    Rep (p.run answer s).2.2 ∧ post (l ++ (p.run answer s).1) (p.run answer s).2.1 (view (p.run answer s).2.2) := by
  induction p generalizing l s with
  | done a =>
    rw [show (done a : Client Q A ε χ α).run answer s = ([], .ok a, s) from rfl, List.append_nil]
    exact ⟨hs, h⟩
  | fail e =>
    rw [show (fail e : Client Q A ε χ α).run answer s = ([], .error e, s) from rfl, List.append_nil]
    exact ⟨hs, h⟩
  | note e next ih =>
    have hrest := ih hs hP h
    rw [List.append_assoc] at hrest
    exact hrest
  | ask q next ih =>
    obtain ⟨hnext, hmeans⟩ := hanswer q s hs hP.1
    exact ih _ hnext hP.2 (h _ _ hmeans)

/-- What a client ensures whatever the answers are holds in front of any implementation. -/
theorem run_ensures_of_forall (hmeans : ∀ q r v v', means q r v v') {post : List ε → Except χ α → V → Prop}
    (h : p.Ensures means post l v) (answer : (q : Q) → S → Except χ (A q) × S) (s : S) :
    post (l ++ (p.run answer s).1) (p.run answer s).2.1 v := by
  have hquery : p.EachQuery answer (fun _ _ => True) s := by
    clear h
    induction p generalizing s with
    | done a => trivial
    | fail e => trivial
    | note e next ih => exact ih s
    | ask q next ih => exact ⟨trivial, ih _ _⟩
  let view (_ : S) : V := v
  let Rep (_ : S) : Prop := True
  have hanswer : ∀ q s, Rep s → True → Rep (answer q s).2 ∧ means q (answer q s).1 (view s) (view (answer q s).2) :=
    fun q _ _ _ => ⟨trivial, hmeans q _ _ _⟩
  exact (run_ensures hanswer trivial hquery h).2

end Client
