import StateFork.Lib.Pool

/-!
# Rely-guarantee reasoning with locks

A `Protocol` says what the threads of a pool may assume of each other, in terms of views: the state
and the events so far. `rely H` is what the other threads can do to the view while a thread holds the
locks `H`; `guar H` is what the thread promises of its own steps; `inv l` holds whenever nobody holds
`l`; `acq H l` is what a request for `l` promises; `valid` holds always. In a `Coherent` protocol the promise of every thread
implies the assumption of every other one, because two threads never hold the same lock.

`Safe` is the proof obligation of one thread: its steps keep the promises, from every state the
others may leave it in. `safe_reach` is the soundness theorem: if every program of the menu is safe
then every reachable configuration is, so that what is promised of a step holds of every step that
some schedule takes.
-/

namespace Conc

variable {σ L ε χ α β : Type}

structure Protocol (σ L ε : Type) where
  valid : View σ ε → Prop
  rely : List L → View σ ε → View σ ε → Prop
  /-- For the held locks, the events of the program so far, the events of the step, the views. -/
  guar : List L → List ε → List ε → View σ ε → View σ ε → Prop
  acq : List L → L → View σ ε → Prop
  inv : L → View σ ε → Prop

structure Protocol.Coherent (R : Protocol σ L ε) : Prop where
  refl : ∀ H v, R.rely H v v
  trans : ∀ H v v' v'', R.rely H v v' → R.rely H v' v'' → R.rely H v v''
  guar_rely : ∀ H H' h ev v v', (∀ l ∈ H, l ∉ H') → R.valid v → R.guar H h ev v v' → R.rely H' v v'
  guar_inv : ∀ H h ev v v' l, R.valid v → R.guar H h ev v v' → l ∉ H → R.inv l v → R.inv l v'

namespace Protocol

variable (R : Protocol σ L ε)

/-- The program is safe from the view `v`, for an outcome, locks, events and state in `Q`. -/
def Now (Q : Except χ α → List L → List ε → View σ ε → Prop) : Prog σ L ε χ α → List L → List ε → View σ ε → Prop
  | .ret a, H, h, v => R.valid v → Q (.ok a) H h v
  | .throw e, H, h, v => R.valid v → Q (.error e) H h v
  | .atomic ev act next, H, h, v =>
    R.valid v → R.valid (v.step (ev v.state) (act v.state)) ∧
      R.guar H h (ev v.state) v (v.step (ev v.state) (act v.state)) ∧
      ∀ v', R.rely H (v.step (ev v.state) (act v.state)) v' → Now Q (next v.state) H (h ++ ev v.state) v'
  | .acquire l next, H, h, v =>
    R.valid v → R.acq H l v ∧
      ((l ∉ H → R.inv l v) → ∀ v', R.rely (l :: H) v v' → Now Q next (l :: H) h v')
  | .release l next, H, h, v =>
    R.valid v → ∃ H', H = l :: H' ∧ (l ∉ H' → R.inv l v) ∧ ∀ v', R.rely H' v v' → Now Q next H' h v'

/-- The program is safe from every state that the others may turn `v` into. -/
def Safe (Q : Except χ α → List L → List ε → View σ ε → Prop) (p : Prog σ L ε χ α) (H : List L) (h : List ε)
    (v : View σ ε) : Prop :=
  ∀ v', R.rely H v v' → R.Now Q p H h v'

variable {R}

theorem Now.mono {Q Q' : Except χ α → List L → List ε → View σ ε → Prop} (hQ : ∀ r H h v, Q r H h v → Q' r H h v)
    {p : Prog σ L ε χ α} {H : List L} {h : List ε} {v : View σ ε} (hp : R.Now Q p H h v) : R.Now Q' p H h v := by
  induction p generalizing H h v with
  | ret a => exact fun hv => hQ _ _ _ _ (hp hv)
  | throw e => exact fun hv => hQ _ _ _ _ (hp hv)
  | atomic ev act next ih =>
    intro hv
    obtain ⟨hv', hg, hnext⟩ := hp hv
    exact ⟨hv', hg, fun v' hs' => ih v.state (hnext v' hs')⟩
  | acquire l next ih =>
    intro hv
    obtain ⟨ha, hnext⟩ := hp hv
    exact ⟨ha, fun hi v' hs' => ih (hnext hi v' hs')⟩
  | release l next ih =>
    intro hv
    obtain ⟨H', rfl, hi, hnext⟩ := hp hv
    exact ⟨H', rfl, hi, fun v' hs' => ih (hnext v' hs')⟩

/-- Every obligation is one about a valid state. -/
theorem now_of_valid {Q : Except χ α → List L → List ε → View σ ε → Prop} {p : Prog σ L ε χ α} {H : List L}
    {h : List ε} {v : View σ ε} (hp : R.valid v → R.Now Q p H h v) : R.Now Q p H h v := by
  cases p with
  | ret a => exact fun hv => hp hv hv
  | throw e => exact fun hv => hp hv hv
  | atomic ev act next => exact fun hv => hp hv hv
  | acquire l next => exact fun hv => hp hv hv
  | release l next => exact fun hv => hp hv hv

/-- Sequencing: what holds after the first program must make its continuation safe. -/
theorem Now.andThen {Q : Except χ α → List L → List ε → View σ ε → Prop}
    {Q' : Except χ β → List L → List ε → View σ ε → Prop} {p : Prog σ L ε χ α}
    {k : Except χ α → Prog σ L ε χ β} {H : List L} {h : List ε} {v : View σ ε} (hp : R.Now Q p H h v)
    (hk : ∀ r H h v, Q r H h v → R.Now Q' (k r) H h v) : R.Now Q' (p.andThen k) H h v := by
  induction p generalizing H h v with
  | ret a => exact now_of_valid fun hv => hk _ _ _ _ (hp hv)
  | throw e => exact now_of_valid fun hv => hk _ _ _ _ (hp hv)
  | atomic ev act next ih =>
    intro hv
    obtain ⟨hv', hg, hnext⟩ := hp hv
    exact ⟨hv', hg, fun v' hs' => ih v.state (hnext v' hs')⟩
  | acquire l next ih =>
    intro hv
    obtain ⟨ha, hnext⟩ := hp hv
    exact ⟨ha, fun hi v' hs' => ih (hnext hi v' hs')⟩
  | release l next ih =>
    intro hv
    obtain ⟨H', rfl, hi, hnext⟩ := hp hv
    exact ⟨H', rfl, hi, fun v' hs' => ih (hnext v' hs')⟩

/-! ### Triples -/

/-- From `P`, under the locks `H`, the program is safe and ends in `Q` with the same locks. -/
def Triple (R : Protocol σ L ε) (H : List L) (P : List ε → View σ ε → Prop) (p : Prog σ L ε χ α)
    (Q : Except χ α → List ε → View σ ε → Prop) : Prop :=
  ∀ h v, P h v → R.Now (fun r H' h' v' => H' = H ∧ Q r h' v') p H h v

/-- The other threads cannot invalidate the assertion. -/
def Stable (R : Protocol σ L ε) (H : List L) (P : List ε → View σ ε → Prop) : Prop :=
  ∀ h v v', R.rely H v v' → P h v → P h v'

variable {H : List L} {P P' : List ε → View σ ε → Prop} {Q Q' : Except χ α → List ε → View σ ε → Prop}

theorem Triple.weaken {p : Prog σ L ε χ α} (hp : R.Triple H P p Q) (hP : ∀ h v, P' h v → P h v)
    (hQ : ∀ r h v, Q r h v → Q' r h v) : R.Triple H P' p Q' :=
  fun h v hs => (hp h v (hP h v hs)).mono fun r _ h' v' hq => ⟨hq.1, hQ r h' v' hq.2⟩

/-- An assertion may be used together with the validity of the state. -/
theorem triple_of_valid {p : Prog σ L ε χ α} (hp : R.Triple H (fun h v => R.valid v ∧ P h v) p Q) :
    R.Triple H P p Q :=
  fun h v hs => now_of_valid fun hv => hp h v ⟨hv, hs⟩

/-- A fact that does not depend on the state can be moved out of an assertion. -/
theorem triple_of_fact {A : Prop} {p : Prog σ L ε χ α} (hA : ∀ h v, P h v → A)
    (hp : A → R.Triple H P p Q) : R.Triple H P p Q :=
  fun h v hs => hp (hA h v hs) h v hs

theorem triple_ret {a : α} (ha : ∀ h v, P h v → Q (.ok a) h v) : R.Triple H P (.ret a) Q :=
  fun h v hs _ => ⟨rfl, ha h v hs⟩

theorem triple_throw {e : χ} (he : ∀ h v, P h v → Q (.error e) h v) :
    R.Triple H P (.throw e : Prog σ L ε χ α) Q :=
  fun h v hs _ => ⟨rfl, he h v hs⟩

theorem triple_andThen {p : Prog σ L ε χ α} {k : Except χ α → Prog σ L ε χ β}
    {Q' : Except χ β → List ε → View σ ε → Prop} (hp : R.Triple H P p Q) (hk : ∀ r, R.Triple H (Q r) (k r) Q') :
    R.Triple H P (p.andThen k) Q' := by
  intro h v hs
  refine (hp h v hs).andThen ?_
  rintro r H' h' v' ⟨rfl, hq⟩
  exact hk r h' v' hq

/-- Sequencing of two programs, of which the first one may raise. -/
theorem triple_bind {p : Prog σ L ε χ α} {f : α → Prog σ L ε χ β} {Q' : Except χ β → List ε → View σ ε → Prop}
    (hp : R.Triple H P p Q) (hf : ∀ a, R.Triple H (Q (.ok a)) (f a) Q')
    (he : ∀ e h v, Q (.error e) h v → Q' (.error e) h v) : R.Triple H P (p >>= f) Q' := by
  refine triple_andThen hp ?_
  rintro (e | a)
  · exact triple_throw (he e)
  · exact hf a

theorem triple_map {p : Prog σ L ε χ α} {f : α → β} (hp : R.Triple H P p Q) :
    R.Triple H P (f <$> p) fun r h v => ∃ r', r = r'.map f ∧ Q r' h v := by
  show R.Triple H P (p >>= fun a => pure (f a)) _
  refine triple_bind hp (fun a => ?_) fun e _ _ hq => ⟨.error e, rfl, hq⟩
  exact triple_ret fun _ _ hq => ⟨.ok a, rfl, hq⟩

theorem triple_attempt {p : Prog σ L ε χ α} (hp : R.Triple H P p Q) :
    R.Triple H P p.attempt fun r h v => ∃ r', r = .ok r' ∧ Q r' h v :=
  triple_andThen hp fun r => triple_ret fun _ _ hq => ⟨r, rfl, hq⟩

/-- One atomic step, whose outcome the other threads cannot invalidate. -/
theorem triple_atomic {ev : σ → List ε} {act : σ → σ} {next : σ → Prog σ L ε χ α}
    {M : σ → List ε → View σ ε → Prop} (hM : ∀ s, R.Stable H (M s))
    (hstep : ∀ h v, R.valid v → P h v → R.valid (v.step (ev v.state) (act v.state)) ∧
      R.guar H h (ev v.state) v (v.step (ev v.state) (act v.state)) ∧
      M v.state (h ++ ev v.state) (v.step (ev v.state) (act v.state)))
    (hnext : ∀ s, R.Triple H (M s) (next s) Q) : R.Triple H P (.atomic ev act next) Q := by
  intro h v hs hv
  obtain ⟨hv', hg, hm⟩ := hstep h v hv hs
  exact ⟨hv', hg, fun v' hs' => hnext v.state _ _ (hM v.state _ _ _ hs' hm)⟩

/-- A critical section of a lock that the thread does not hold yet: `P'` and `Q'` are assertions of its
body, and the body must restore the invariant of the lock. -/
theorem triple_withLock {l : L} {p : Prog σ L ε χ α} (hl : l ∉ H)
    (hacq : ∀ h v, R.valid v → P h v → R.acq H l v)
    (hP' : R.Stable (l :: H) P') (hin : ∀ h v, R.valid v → R.inv l v → P h v → P' h v)
    (hp : R.Triple (l :: H) P' p Q') (hinv : ∀ r h v, R.valid v → Q' r h v → R.inv l v)
    (hQ : ∀ r, R.Stable H (Q r)) (hout : ∀ r h v, R.valid v → Q' r h v → Q r h v) :
    R.Triple H P (.withLock l p) Q := by
  intro h v hs hv
  refine ⟨hacq h v hv hs, fun hi v' hs' => ?_⟩
  refine (hp h v' (hP' h v v' hs' (hin h v hv (hi hl) hs))).andThen ?_
  rintro r _ h₁ v₁ ⟨rfl, hq⟩ hv₁
  refine ⟨H, rfl, fun _ => hinv r h₁ v₁ hv₁ hq, fun v₂ hs₂ => ?_⟩
  have hq₂ := hQ r h₁ v₁ v₂ hs₂ (hout r h₁ v₁ hv₁ hq)
  cases r with
  | ok a => exact fun _ => ⟨rfl, hq₂⟩
  | error e => exact fun _ => ⟨rfl, hq₂⟩

/-- A critical section of a lock that the thread holds already. -/
theorem triple_withLock_held {l : L} {p : Prog σ L ε χ α} (hl : l ∈ H)
    (hacq : ∀ h v, R.valid v → P h v → R.acq H l v) (hP : R.Stable (l :: H) P)
    (hp : R.Triple (l :: H) P p Q) (hQ : ∀ r, R.Stable H (Q r)) : R.Triple H P (.withLock l p) Q := by
  intro h v hs hv
  refine ⟨hacq h v hv hs, fun _ v' hs' => ?_⟩
  refine (hp h v' (hP h v v' hs' hs)).andThen ?_
  rintro r _ h₁ v₁ ⟨rfl, hq⟩ hv₁
  refine ⟨H, rfl, fun hn => absurd hl hn, fun v₂ hs₂ => ?_⟩
  have hq₂ := hQ r h₁ v₁ v₂ hs₂ hq
  cases r with
  | ok a => exact fun _ => ⟨rfl, hq₂⟩
  | error e => exact fun _ => ⟨rfl, hq₂⟩

/-- One atomic step that ends the program. -/
theorem triple_step {ev : σ → List ε} {act : σ → σ} {r : σ → Except χ α} (hQ : ∀ x, R.Stable H (Q x))
    (hstep : ∀ h v, R.valid v → P h v → R.valid (v.step (ev v.state) (act v.state)) ∧
      R.guar H h (ev v.state) v (v.step (ev v.state) (act v.state)) ∧
      Q (r v.state) (h ++ ev v.state) (v.step (ev v.state) (act v.state))) :
    R.Triple H P (.atomic ev act fun s => .ofExcept (r s)) Q := by
  refine triple_atomic (fun s => hQ (r s)) hstep fun s => ?_
  cases r s with
  | ok a => exact triple_ret fun _ _ hq => hq
  | error e => exact triple_throw fun _ _ hq => hq

/-- A lock that plays no role in the protocol. -/
structure Plain (R : Protocol σ L ε) (l : L) : Prop where
  acq : ∀ H v, R.acq H l v
  inv : ∀ v, R.inv l v
  rely : ∀ H v v', R.rely (l :: H) v v' → R.rely H v v'
  guar : ∀ H h ev v v', R.guar H h ev v v' → R.guar (l :: H) h ev v v'

theorem Plain.stable {l : L} (hl : R.Plain l) (hP : R.Stable H P) : R.Stable (l :: H) P :=
  fun h v v' hr => hP h v v' (hl.rely _ _ _ hr)

/-- A critical section of such a lock, held already or not. -/
theorem triple_plain {l : L} {p : Prog σ L ε χ α} (hl : R.Plain l) (hP : R.Stable H P)
    (hQ : ∀ x, R.Stable H (Q x)) (hp : R.Triple (l :: H) P p Q) : R.Triple H P (.withLock l p) Q := by
  by_cases hmem : l ∈ H
  · exact triple_withLock_held hmem (fun _ v _ _ => hl.acq H v) (hl.stable hP) hp hQ
  · exact triple_withLock hmem (fun _ v _ _ => hl.acq H v) (hl.stable hP) (fun _ _ _ _ hp => hp) hp
      (fun _ _ v _ _ => hl.inv v) hQ fun _ _ _ _ hq => hq

/-- One of a single step. -/
theorem triple_section {l : L} (hl : R.Plain l) {ev : σ → List ε} {act : σ → σ} {r : σ → Except χ α}
    (hP : R.Stable H P) (hQ : ∀ x, R.Stable H (Q x))
    (hstep : ∀ h v, R.valid v → P h v → R.valid (v.step (ev v.state) (act v.state)) ∧
      R.guar H h (ev v.state) v (v.step (ev v.state) (act v.state)) ∧
      Q (r v.state) (h ++ ev v.state) (v.step (ev v.state) (act v.state))) :
    R.Triple H P (.withLock l (.atomic ev act fun s => .ofExcept (r s))) Q := by
  refine triple_plain hl hP hQ (triple_step (fun x => hl.stable (hQ x)) fun h v hv hp => ?_)
  obtain ⟨hv', hg, hq⟩ := hstep h v hv hp
  exact ⟨hv', hl.guar _ _ _ _ _ hg, hq⟩

/-- A loop that keeps an assertion. -/
theorem triple_each {Q Q' : Except χ Unit → List ε → View σ ε → Prop} {l : List β} {f : β → Prog σ L ε χ Unit}
    (hf : ∀ b ∈ l, R.Triple H P (f b) Q) (hok : ∀ h v, Q (.ok ()) h v → P h v)
    (he : ∀ e h v, Q (.error e) h v → Q' (.error e) h v) (hP : ∀ h v, P h v → Q' (.ok ()) h v) :
    R.Triple H P (.each l f) Q' := by
  induction l with
  | nil => exact triple_ret hP
  | cons b l ih =>
    refine triple_bind (hf b (List.mem_cons_self ..)) (fun _ => ?_) he
    exact (ih fun b' hb' => hf b' (List.mem_cons_of_mem _ hb')).weaken hok fun _ _ _ hq => hq

/-! ### Keeping an assertion -/

/-- An assertion that neither the other threads nor the growing log of the program can invalidate. -/
structure Frame (R : Protocol σ L ε) (H : List L) (F : List ε → View σ ε → Prop) : Prop where
  stable : R.Stable H F
  log : ∀ h ev v, F h v → F (h ++ ev) v

/-- The program keeps the assertion, whatever its outcome. -/
abbrev Keep (R : Protocol σ L ε) (H : List L) (F : List ε → View σ ε → Prop) (p : Prog σ L ε χ α) : Prop :=
  R.Triple H F p fun _ => F

variable {F : List ε → View σ ε → Prop}

theorem keep_ret (a : α) : R.Keep H F (.ret a : Prog σ L ε χ α) := triple_ret fun _ _ hF => hF

/-- What follows starts from the assertion. -/
theorem Keep.bind {p : Prog σ L ε χ α} {f : α → Prog σ L ε χ β} {Q' : Except χ β → List ε → View σ ε → Prop}
    (hp : R.Keep H F p) (hf : ∀ a, R.Triple H F (f a) Q') (he : ∀ e h v, F h v → Q' (.error e) h v) :
    R.Triple H F (p >>= f) Q' :=
  triple_bind hp hf he

theorem keep_bind {p : Prog σ L ε χ α} {f : α → Prog σ L ε χ β} (hp : R.Keep H F p)
    (hf : ∀ a, R.Keep H F (f a)) : R.Keep H F (p >>= f) :=
  hp.bind hf fun _ _ _ hF => hF

theorem keep_andThen {p : Prog σ L ε χ α} {k : Except χ α → Prog σ L ε χ β} (hp : R.Keep H F p)
    (hk : ∀ r, R.Keep H F (k r)) : R.Keep H F (p.andThen k) :=
  triple_andThen hp hk

theorem keep_attempt {p : Prog σ L ε χ α} (hp : R.Keep H F p) : R.Keep H F p.attempt :=
  keep_andThen hp fun r => keep_ret r

theorem keep_each {l : List β} {f : β → Prog σ L ε χ Unit} (hf : ∀ b ∈ l, R.Keep H F (f b)) :
    R.Keep H F (.each l f) :=
  triple_each hf (fun _ _ hF => hF) (fun _ _ _ hF => hF) fun _ _ hF => hF

theorem Frame.and {F' : List ε → View σ ε → Prop} (h : R.Frame H F) (h' : R.Frame H F') :
    R.Frame H fun l v => F l v ∧ F' l v where
  stable l v v' hr hF := ⟨h.stable l v v' hr hF.1, h'.stable l v v' hr hF.2⟩
  log l ev v hF := ⟨h.log l ev v hF.1, h'.log l ev v hF.2⟩

/-- Assertions about the members of a collection. -/
theorem Frame.all {ι : Type} {C : ι → Prop} {G : ι → List ε → View σ ε → Prop} (h : ∀ i, C i → R.Frame H (G i)) :
    R.Frame H fun l v => ∀ i, C i → G i l v where
  stable l v v' hr hF i hi := (h i hi).stable l v v' hr (hF i hi)
  log l ev v hF i hi := (h i hi).log l ev v (hF i hi)

theorem Plain.frame {l : L} (hl : R.Plain l) (hF : R.Frame H F) : R.Frame (l :: H) F :=
  ⟨hl.stable hF.stable, hF.log⟩

/-- A step that keeps all promises and that no assertion of another thread could notice. -/
structure Quiet (R : Protocol σ L ε) (ev : List ε) (v : View σ ε) (s : σ) : Prop where
  valid : R.valid (v.step ev s)
  guar : ∀ H h, R.guar H h ev v (v.step ev s)
  rely : ∀ H, R.rely H v (v.step ev s)

theorem Quiet.frame {ev : List ε} {v : View σ ε} {s : σ} (hq : R.Quiet ev v s) (hF : R.Frame H F) {h : List ε}
    (h' : F h v) : F (h ++ ev) (v.step ev s) :=
  hF.log _ _ _ (hF.stable _ _ _ (hq.rely H) h')

theorem Quiet.frame_nil {v : View σ ε} {s : σ} (hq : R.Quiet [] v s) (hF : R.Frame H F) {h : List ε} (h' : F h v) :
    F h (v.step [] s) := by
  have hframe := hq.frame hF h'
  rwa [List.append_nil] at hframe

/-- A quiet step keeps every frame. -/
theorem Frame.keep_step (hF : R.Frame H F) {ev : σ → List ε} {act : σ → σ} {r : σ → Except χ α}
    (hq : ∀ v, R.valid v → R.Quiet (ev v.state) v (act v.state)) :
    R.Keep H F (.atomic ev act fun s => .ofExcept (r s)) :=
  triple_step (fun _ => hF.stable) fun h v hv h' =>
    ⟨(hq v hv).valid, (hq v hv).guar H h, (hq v hv).frame hF h'⟩

theorem Frame.keep_section (hF : R.Frame H F) {l : L} (hl : R.Plain l) {ev : σ → List ε} {act : σ → σ}
    {r : σ → Except χ α} (hq : ∀ v, R.valid v → R.Quiet (ev v.state) v (act v.state)) :
    R.Keep H F (.withLock l (.atomic ev act fun s => .ofExcept (r s))) :=
  triple_section hl hF.stable (fun _ => hF.stable) fun h v hv h' =>
    ⟨(hq v hv).valid, (hq v hv).guar H h, (hq v hv).frame hF h'⟩

/-! ### Programs that do not raise -/

/-- The program does not raise, whatever it reads. -/
def NeverRaises : Prog σ L ε χ α → Prop
  | .ret _ => True
  | .throw _ => False
  | .atomic _ _ next => ∀ s, NeverRaises (next s)
  | .acquire _ next => NeverRaises next
  | .release _ next => NeverRaises next

theorem Now.neverRaises {Q : Except χ α → List L → List ε → View σ ε → Prop} {p : Prog σ L ε χ α} {H : List L}
    {h : List ε} {v : View σ ε} (hp : R.Now Q p H h v) (htotal : NeverRaises p) :
    R.Now (fun r H h v => Q r H h v ∧ ∃ a, r = .ok a) p H h v := by
  induction p generalizing H h v with
  | ret a => exact fun hv => ⟨hp hv, a, rfl⟩
  | throw e => exact htotal.elim
  | atomic ev act next ih =>
    intro hv
    obtain ⟨hv', hg, hnext⟩ := hp hv
    exact ⟨hv', hg, fun v' hs' => ih v.state (hnext v' hs') (htotal v.state)⟩
  | acquire l next ih =>
    intro hv
    obtain ⟨ha, hnext⟩ := hp hv
    exact ⟨ha, fun hi v' hs' => ih (hnext hi v' hs') htotal⟩
  | release l next ih =>
    intro hv
    obtain ⟨H', rfl, hi, hnext⟩ := hp hv
    exact ⟨H', rfl, hi, fun v' hs' => ih (hnext v' hs') htotal⟩

/-- Sequencing after a program that does not raise. -/
theorem triple_bind_total {p : Prog σ L ε χ α} {f : α → Prog σ L ε χ β} {Q' : Except χ β → List ε → View σ ε → Prop}
    (htotal : NeverRaises p) (hp : R.Triple H P p Q) (hf : ∀ a, R.Triple H (Q (.ok a)) (f a) Q') :
    R.Triple H P (p >>= f) Q' := by
  have hp' : R.Triple H P p fun r h v => Q r h v ∧ ∃ a, r = .ok a := fun h v hs =>
    ((hp h v hs).neverRaises htotal).mono fun _ _ _ _ hq => ⟨hq.1.1, hq.1.2, hq.2⟩
  refine triple_bind hp' (fun a => (hf a).weaken (fun _ _ hq => hq.1) fun _ _ _ hq => hq) ?_
  rintro e h v ⟨-, a, he⟩
  cases he

/-! ### A thread alone -/

/-- In a protocol without lock invariants a safe program that runs alone keeps the state valid and ends
in its postcondition. -/
theorem Now.run (hrefl : ∀ H v, R.rely H v v) (hinv : ∀ l v, R.inv l v)
    {Q : Except χ α → List L → List ε → View σ ε → Prop} {p : Prog σ L ε χ α} {H : List L} {h : List ε} {v : View σ ε}
    (hp : R.Now Q p H h v) (hs : R.valid v) :
    ∃ H' h' tr, R.valid ⟨(p.run v.state).2, tr⟩ ∧ Q (p.run v.state).1 H' h' ⟨(p.run v.state).2, tr⟩ := by
  induction p generalizing H h v with
  | ret a => exact ⟨H, h, v.events, hs, hp hs⟩
  | throw e => exact ⟨H, h, v.events, hs, hp hs⟩
  | atomic ev act next ih =>
    obtain ⟨hs', -, hnext⟩ := hp hs
    exact ih v.state (hnext _ (hrefl _ _)) hs'
  | acquire l next ih =>
    obtain ⟨-, hnext⟩ := hp hs
    exact ih (hnext (fun _ => hinv l v) _ (hrefl _ _)) hs
  | release l next ih =>
    obtain ⟨H', -, -, hnext⟩ := hp hs
    exact ih (hnext _ (hrefl _ _)) hs

end Protocol

/-! ### Soundness -/

open Protocol in
/-- The invariant of a pool: lock owners hold their locks, free locks have their invariants, and every
running program is safe. -/
structure Config.Safe (R : Protocol σ L ε) (c : Config σ L ε χ α) : Prop where
  valid : R.valid c.view
  owner : ∀ t l, c.owner l = some t ↔ l ∈ (c.thread t).held
  free : ∀ l, c.owner l = none → R.inv l c.view
  code : ∀ t p, (c.thread t).code = some p →
    R.Safe (fun _ H _ _ => H = []) p (c.thread t).held (c.thread t).log c.view
  idle : ∀ t, (c.thread t).code = none → (c.thread t).held = [] ∧ (c.thread t).log = []

namespace Config.Safe

open Protocol

variable {R : Protocol σ L ε} {c c' : Config σ L ε χ α} {menu : Prog σ L ε χ α → Prop}
  {reentrant : L → Bool}

/-- Two threads never hold the same lock. -/
theorem disjoint (h : c.Safe R) {t t' : Nat} (hne : t ≠ t') :
    ∀ l ∈ (c.thread t).held, l ∉ (c.thread t').held := by
  intro l hl hl'
  have hown := (h.owner t l).mpr hl
  rw [(h.owner t' l).mpr hl'] at hown
  exact hne (Option.some.inj hown).symm

/-- What a running thread promises of its next step. -/
theorem now (h : c.Safe R) {t : Nat} {p : Prog σ L ε χ α} (hp : (c.thread t).code = some p)
    (hR : R.Coherent) : R.Now (fun _ H _ _ => H = []) p (c.thread t).held (c.thread t).log c.view :=
  h.code t p hp c.view (hR.refl _ _)

/-- What is promised of the atomic steps. -/
theorem guar (h : c.Safe R) (hR : R.Coherent) {t : Nat} {ev : σ → List ε} {act : σ → σ}
    {next : σ → Prog σ L ε χ α} (hp : (c.thread t).code = some (.atomic ev act next)) :
    R.guar (c.thread t).held (c.thread t).log (ev c.state) c.view (c.view.step (ev c.state) (act c.state)) :=
  (h.now hp hR h.valid).2.1

/-- What is promised of the requests. -/
theorem acq (h : c.Safe R) (hR : R.Coherent) {t : Nat} {l : L} (hl : c.Requests t l) :
    R.acq (c.thread t).held l c.view := by
  obtain ⟨next, hp⟩ := hl
  exact (h.now hp hR h.valid).1

/-- A thread that goes on with other code, in the same state and with the same locks. -/
theorem setThread (h : c.Safe R) {t : Nat} {th : Thread σ L ε χ α} (hheld : th.held = (c.thread t).held)
    (hcode : ∀ p, th.code = some p → R.Safe (fun _ H _ _ => H = []) p th.held th.log c.view)
    (hidle : th.code = none → th.held = [] ∧ th.log = []) : (c.setThread t th).Safe R where
  valid := h.valid
  owner t' l := by
    refine (h.owner t' l).trans ?_
    by_cases ht : t' = t
    · subst ht
      simp only [Config.setThread, Function.update_self, hheld]
    · simp only [Config.setThread, Function.update_of_ne ht]
  free := h.free
  code t' p hp := by
    by_cases ht : t' = t
    · subst ht
      simp only [Config.setThread, Function.update_self] at hp ⊢
      exact hcode p hp
    · simp only [Config.setThread, Function.update_of_ne ht] at hp ⊢
      exact h.code t' p hp
  idle t' ht' := by
    by_cases ht : t' = t
    · subst ht
      simp only [Config.setThread, Function.update_self] at ht' ⊢
      exact hidle ht'
    · simp only [Config.setThread, Function.update_of_ne ht] at ht' ⊢
      exact h.idle t' ht'

theorem finish (h : c.Safe R) (hR : R.Coherent) {t : Nat} {p : Prog σ L ε χ α}
    (hp : (c.thread t).code = some p)
    (hend : R.Now (fun _ H _ _ => H = []) p (c.thread t).held (c.thread t).log c.view →
      (c.thread t).held = []) :
    (c.setThread t { c.thread t with code := none, log := [] }).Safe R :=
  h.setThread rfl (by simp) fun _ => ⟨hend (h.now hp hR), rfl⟩

theorem atomic (h : c.Safe R) (hR : R.Coherent) {t : Nat} {ev : σ → List ε} {act : σ → σ}
    {next : σ → Prog σ L ε χ α} (hp : (c.thread t).code = some (.atomic ev act next)) :
    ({ (c.setThread t
          { c.thread t with code := some (next c.state), log := (c.thread t).log ++ ev c.state }) with
        state := act c.state, trace := c.trace ++ (ev c.state).map fun e => (t, e) } :
      Config σ L ε χ α).Safe R := by
  obtain ⟨hvalid, hguar, hnext⟩ := h.now hp hR h.valid
  have hview : (⟨act c.state, (c.trace ++ (ev c.state).map fun e => (t, e)).map Prod.snd⟩ : View σ ε) =
      c.view.step (ev c.state) (act c.state) := by
    simp [View.step, Config.view, Function.comp_def]
  constructor
  case valid =>
    unfold Config.view
    rw [hview]
    exact hvalid
  case owner =>
    intro t' l
    refine (h.owner t' l).trans ?_
    by_cases ht : t' = t
    · subst ht
      simp only [Config.setThread, Function.update_self]
    · simp only [Config.setThread, Function.update_of_ne ht]
  case free =>
    intro l hl
    have hnot : l ∉ (c.thread t).held := fun hmem =>
      absurd (((h.owner t l).mpr hmem).symm.trans hl) (by simp)
    unfold Config.view
    rw [hview]
    exact hR.guar_inv _ _ _ _ _ _ h.valid hguar hnot (h.free l hl)
  case code =>
    intro t' p' hp'
    unfold Config.view
    rw [hview]
    by_cases ht : t' = t
    · subst ht
      simp only [Config.setThread, Function.update_self, Option.some.injEq] at hp' ⊢
      exact hp' ▸ hnext
    · simp only [Config.setThread, Function.update_of_ne ht] at hp' ⊢
      intro v' hv'
      have hrely := hR.guar_rely _ _ _ _ _ _ (h.disjoint fun he => ht he.symm) h.valid hguar
      exact h.code t' p' hp' v' (hR.trans _ _ _ _ hrely hv')
  case idle =>
    intro t' ht'
    by_cases ht : t' = t
    · subst ht
      simp only [Config.setThread, Function.update_self] at ht'
      exact absurd ht' (by simp)
    · simp only [Config.setThread, Function.update_of_ne ht] at ht' ⊢
      exact h.idle t' ht'

variable [DecidableEq L]

theorem acquire (h : c.Safe R) (hR : R.Coherent) {t : Nat} {l : L} {next : Prog σ L ε χ α}
    (hp : (c.thread t).code = some (.acquire l next)) (hav : c.available reentrant t l = true) :
    ({ (c.setThread t { c.thread t with code := some next, held := l :: (c.thread t).held }) with
        owner := Function.update c.owner l (some t) } : Config σ L ε χ α).Safe R := by
  obtain ⟨-, hnext⟩ := h.now hp hR h.valid
  -- nobody else owns the lock
  have hown : ∀ t', c.owner l = some t' → t' = t := by
    intro t' ht'
    unfold Config.available at hav
    rw [ht'] at hav
    simp only [Bool.and_eq_true, decide_eq_true_eq] at hav
    exact hav.1
  constructor
  case valid => exact h.valid
  case owner =>
    intro t' l'
    by_cases ht : t' = t
    · subst ht
      simp only [Config.setThread, Function.update_self, List.mem_cons]
      by_cases hl : l' = l
      · simp [hl]
      · simp [hl, h.owner]
    · simp only [Config.setThread, Function.update_of_ne ht]
      by_cases hl : l' = l
      · subst hl
        rw [Function.update_self]
        constructor
        · intro he
          exact absurd (Option.some.inj he).symm ht
        · intro hmem
          exact absurd (hown t' ((h.owner t' l').mpr hmem)) ht
      · rw [Function.update_of_ne hl, h.owner]
  case free =>
    intro l' hl'
    by_cases hl : l' = l
    · subst hl
      simp only [Function.update_self] at hl'
      exact absurd hl' (by simp)
    · simp only [Function.update_of_ne hl] at hl'
      exact h.free l' hl'
  case code =>
    intro t' p' hp'
    by_cases ht : t' = t
    · subst ht
      simp only [Config.setThread, Function.update_self, Option.some.injEq] at hp' ⊢
      subst hp'
      refine hnext fun hnot => h.free l ?_
      cases ho : c.owner l with
      | none => rfl
      | some t₁ =>
        obtain rfl := hown t₁ ho
        exact absurd ((h.owner t₁ l).mp ho) hnot
    · simp only [Config.setThread, Function.update_of_ne ht] at hp' ⊢
      exact h.code t' p' hp'
  case idle =>
    intro t' ht'
    by_cases ht : t' = t
    · subst ht
      simp only [Config.setThread, Function.update_self] at ht'
      exact absurd ht' (by simp)
    · simp only [Config.setThread, Function.update_of_ne ht] at ht' ⊢
      exact h.idle t' ht'

theorem release (h : c.Safe R) (hR : R.Coherent) {t : Nat} {l : L} {next : Prog σ L ε χ α}
    (hp : (c.thread t).code = some (.release l next)) :
    ({ (c.setThread t { c.thread t with code := some next, held := (c.thread t).held.erase l }) with
        owner := Function.update c.owner l (if l ∈ (c.thread t).held.erase l then some t else none) } :
      Config σ L ε χ α).Safe R := by
  obtain ⟨H', hH, hinv, hnext⟩ := h.now hp hR h.valid
  have herase : (c.thread t).held.erase l = H' := by rw [hH, List.erase_cons_head]
  rw [herase]
  have hothers : ∀ t', t' ≠ t → l ∉ (c.thread t').held := fun t' ht' =>
    h.disjoint (fun he => ht' he.symm) l (by rw [hH]; exact List.mem_cons_self ..)
  constructor
  case valid => exact h.valid
  case owner =>
    intro t' l'
    by_cases ht : t' = t
    · subst ht
      simp only [Config.setThread, Function.update_self]
      by_cases hl : l' = l
      · subst hl
        by_cases hmem : l' ∈ H' <;> simp [hmem]
      · rw [Function.update_of_ne hl, h.owner, hH]
        simp [hl]
    · simp only [Config.setThread, Function.update_of_ne ht]
      by_cases hl : l' = l
      · subst hl
        rw [Function.update_self]
        refine ⟨fun he => ?_, fun hmem => absurd hmem (hothers t' ht)⟩
        split_ifs at he
        exact absurd (Option.some.inj he).symm ht
      · rw [Function.update_of_ne hl, h.owner]
  case free =>
    intro l' hl'
    by_cases hl : l' = l
    · subst hl
      simp only [Function.update_self] at hl'
      split_ifs at hl' with hmem
      exact hinv hmem
    · simp only [Function.update_of_ne hl] at hl'
      exact h.free l' hl'
  case code =>
    intro t' p' hp'
    by_cases ht : t' = t
    · subst ht
      simp only [Config.setThread, Function.update_self, Option.some.injEq] at hp' ⊢
      subst hp'
      exact hnext
    · simp only [Config.setThread, Function.update_of_ne ht] at hp' ⊢
      exact h.code t' p' hp'
  case idle =>
    intro t' ht'
    by_cases ht : t' = t
    · subst ht
      simp only [Config.setThread, Function.update_self] at ht'
      exact absurd ht' (by simp)
    · simp only [Config.setThread, Function.update_of_ne ht] at ht' ⊢
      exact h.idle t' ht'

/-- Steps keep a pool of safe programs safe. -/
theorem step (h : c.Safe R) (hR : R.Coherent)
    (hmenu : ∀ p, menu p → ∀ v, R.Now (fun _ H _ _ => H = []) p [] [] v)
    (hstep : Config.Step menu reentrant c c') : c'.Safe R := by
  cases hstep with
  | @start t p idle offered =>
    obtain ⟨hheld, hlog⟩ := h.idle t idle
    refine h.setThread rfl ?_ (by simp)
    rintro _ ⟨⟩ s' -
    dsimp only
    rw [hheld, hlog]
    exact hmenu p offered s'
  | @run _ t taken =>
    unfold Config.stepThread at taken
    dsimp only at taken
    split at taken
    · exact absurd taken (by simp)
    · next a hp =>
      obtain rfl := Option.some.inj taken
      exact h.finish hR hp fun hnow => hnow h.valid
    · next e hp =>
      obtain rfl := Option.some.inj taken
      exact h.finish hR hp fun hnow => hnow h.valid
    · next ev act next hp =>
      obtain rfl := Option.some.inj taken
      exact h.atomic hR hp
    · next l next hp =>
      split_ifs at taken with hav
      obtain rfl := Option.some.inj taken
      exact h.acquire hR hp hav
    · next l next hp =>
      obtain rfl := Option.some.inj taken
      exact h.release hR hp

end Config.Safe

/-- Every schedule of safe programs keeps all promises. -/
theorem Config.safe_reach [DecidableEq L] {R : Protocol σ L ε} (hR : R.Coherent)
    {menu : Prog σ L ε χ α → Prop} {reentrant : L → Bool}
    (hmenu : ∀ p, menu p → ∀ v, R.Now (fun _ H _ _ => H = []) p [] [] v) {s : σ} (hs : R.valid ⟨s, []⟩)
    (hinv : ∀ l, R.inv l ⟨s, []⟩) {c : Config σ L ε χ α} (h : Config.Reach menu reentrant s c) : c.Safe R := by
  induction h with
  | refl => exact ⟨hs, by simp, fun l _ => hinv l, by simp, by simp⟩
  | tail _ hstep ih => exact ih.step hR hmenu hstep

end Conc
