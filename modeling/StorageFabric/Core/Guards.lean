import StorageFabric.Core.Ledger

/-!
Programs over reservation guards.

A program makes reservations, creates guards from what `reserve` returned, moves the
guards around, settles reservations through them and destroys them. A guard keeps its
own copy of the reservation, whose state it never updates, and a guard that was moved
from still knows the ledger and the id; what it lacks is the duty to release.

An armed guard and a settled reservation are the only two ways in which a reservation
that was ever guarded can be accounted for, and every operation keeps to them.
-/

namespace StorageFabric

namespace ReservationGuard

def release (g : ReservationGuard) (l : ReservationLedger) :
    Status × ReservationGuard × ReservationLedger :=
  let (st, l) := l.release g.res.id g.res.generation
  (st, if st.isOk then { g with armed := false } else g, l)

end ReservationGuard

/-- A guard as a variable: `ledger_` is either null or points to the one ledger. -/
structure GuardVariable where
  bound : Bool := false
  guard : ReservationGuard := { res := {}, armed := false }
  deriving DecidableEq

namespace GuardVariable

/-- The guard after `std::move`: only the text of its reservation is gone. -/
def movedFrom (v : GuardVariable) : GuardVariable :=
  { v with guard := { res := { v.guard.res with reason := [] }, armed := false } }

def destroy (v : GuardVariable) (l : ReservationLedger) : ReservationLedger :=
  if v.bound then v.guard.destroy l else l

def commit (v : GuardVariable) (l : ReservationLedger) (placement : PlacementId) :
    Status × GuardVariable × ReservationLedger :=
  if v.bound then
    let (st, guard, l) := v.guard.commit l placement
    (st, { v with guard }, l)
  else (.of .invalidState "no ledger bound", v, l)

def release (v : GuardVariable) (l : ReservationLedger) :
    Status × GuardVariable × ReservationLedger :=
  if v.bound then
    let (st, guard, l) := v.guard.release l
    (st, { v with guard }, l)
  else (.of .invalidState "no ledger bound", v, l)

end GuardVariable

/-- The ledger, the guards that are alive, what `reserve` has returned so far, and
the reservations that guards were created from. -/
structure GuardProgram where
  ledger : ReservationLedger
  guards : Table Nat GuardVariable := ∅
  returned : List Reservation := []
  guarded : List Reservation := []

inductive GuardOp
  | registerBackend (backend : StorageBackendId) (cap : BackendCapacity)
  | reserve (backend : StorageBackendId) (bytes : UInt64) (gen : ReservationGeneration)
      (owner : WorkerId) (reason : Bytes)
  /-- `ReservationGuard g(&ledger, res);` -/
  | create (g : Nat) (res : Reservation)
  /-- `ReservationGuard g;` -/
  | empty (g : Nat)
  /-- `ReservationGuard g(std::move(other));` -/
  | moveConstruct (g other : Nat)
  /-- `g = std::move(other);` -/
  | moveAssign (g other : Nat)
  | commit (g : Nat) (placement : PlacementId)
  | release (g : Nat)
  | destroy (g : Nat)

namespace GuardProgram

def guardAt (s : GuardProgram) (g : Nat) : GuardVariable := (s.guards.lookup g).getD {}

def transfer (s : GuardProgram) (g other : Nat) : Table Nat GuardVariable :=
  (s.guards.insert g (s.guardAt other)).insert other (s.guardAt other).movedFrom

def step (s : GuardProgram) : GuardOp → GuardProgram
  | .registerBackend backend cap => { s with ledger := s.ledger.registerBackend backend cap }
  | .reserve backend bytes gen owner reason =>
      let (r, ledger) := s.ledger.reserve backend bytes gen owner reason
      { s with ledger, returned := r.toOption.toList ++ s.returned }
  | .create g res =>
      { s with
        guards := s.guards.insert g { bound := true, guard := { res } }
        guarded := res :: s.guarded }
  | .empty g => { s with guards := s.guards.insert g {} }
  | .moveConstruct g other => { s with guards := s.transfer g other }
  | .moveAssign g other =>
      if g = other then s
      else { s with ledger := (s.guardAt g).destroy s.ledger, guards := s.transfer g other }
  | .commit g placement =>
      let (_, v, ledger) := (s.guardAt g).commit s.ledger placement
      { s with ledger, guards := s.guards.insert g v }
  | .release g =>
      let (_, v, ledger) := (s.guardAt g).release s.ledger
      { s with ledger, guards := s.guards.insert g v }
  | .destroy g => { s with ledger := (s.guardAt g).destroy s.ledger, guards := s.guards.erase g }

/-- What a program may do next: a backend is registered once and empty, a guard is
created from something that `reserve` returned, and variables are used while they are
alive. -/
def Permitted (s : GuardProgram) : GuardOp → Prop
  | .registerBackend backend cap =>
      backend ∉ s.ledger.backends ∧ cap.reservedBytes = 0 ∧ cap.committedBytes = 0
  | .reserve _ _ _ _ _ => True
  | .create g res => g ∉ s.guards ∧ res ∈ s.returned
  | .empty g => g ∉ s.guards
  | .moveConstruct g other => g ∉ s.guards ∧ other ∈ s.guards
  | .moveAssign g other => g ∈ s.guards ∧ other ∈ s.guards
  | .commit g _ => g ∈ s.guards
  | .release g => g ∈ s.guards
  | .destroy g => g ∈ s.guards

instance (s : GuardProgram) : ∀ op, Decidable (s.Permitted op)
  | .registerBackend backend cap =>
      inferInstanceAs (Decidable (backend ∉ s.ledger.backends ∧ cap.reservedBytes = 0 ∧
        cap.committedBytes = 0))
  | .reserve _ _ _ _ _ => .isTrue trivial
  | .create g res => inferInstanceAs (Decidable (g ∉ s.guards ∧ res ∈ s.returned))
  | .empty g => inferInstanceAs (Decidable (g ∉ s.guards))
  | .moveConstruct g other => inferInstanceAs (Decidable (g ∉ s.guards ∧ other ∈ s.guards))
  | .moveAssign g other => inferInstanceAs (Decidable (g ∈ s.guards ∧ other ∈ s.guards))
  | .commit g _ => inferInstanceAs (Decidable (g ∈ s.guards))
  | .release g => inferInstanceAs (Decidable (g ∈ s.guards))
  | .destroy g => inferInstanceAs (Decidable (g ∈ s.guards))

def start (allowance : UInt64) : GuardProgram := { ledger := .fresh allowance }

/-! ### The calls of the ledger -/

def destroyCall (v : GuardVariable) : Option LedgerOp :=
  if v.bound && v.guard.armed && decide (v.guard.res.state = .active) then
    some (.release v.guard.res.id v.guard.res.generation)
  else none

/-- The call of the ledger that an operation makes. -/
def call (s : GuardProgram) : GuardOp → Option LedgerOp
  | .registerBackend backend cap => some (.registerBackend backend cap)
  | .reserve backend bytes gen owner reason => some (.reserve backend bytes gen owner reason)
  | .moveAssign g other => if g = other then none else destroyCall (s.guardAt g)
  | .commit g placement =>
      if (s.guardAt g).bound then some (.commit (s.guardAt g).guard.res.id placement) else none
  | .release g =>
      if (s.guardAt g).bound then
        some (.release (s.guardAt g).guard.res.id (s.guardAt g).guard.res.generation)
      else none
  | .destroy g => destroyCall (s.guardAt g)
  | _ => none

def calls : GuardProgram → List GuardOp → List LedgerOp
  | _, [] => []
  | s, op :: ops => (s.call op).toList ++ calls (s.step op) ops

theorem destroy_eq (v : GuardVariable) (l : ReservationLedger) :
    v.destroy l = Runs.run ReservationLedger.exec l (destroyCall v).toList := by
  unfold GuardVariable.destroy ReservationGuard.destroy destroyCall
  cases v.bound with
  | false => rfl
  | true =>
      by_cases harmed : (v.guard.armed && decide (v.guard.res.state = .active)) = true
      · simp only [Bool.true_and, harmed, if_true]
        rfl
      · simp only [Bool.true_and, harmed, if_true]
        rfl

theorem ledger_step (s : GuardProgram) (op : GuardOp) :
    (s.step op).ledger = Runs.run ReservationLedger.exec s.ledger (s.call op).toList := by
  cases op with
  | moveAssign g other =>
      by_cases hself : g = other
      · simp only [step, call, if_pos hself]
        rfl
      · simp only [step, call, if_neg hself]
        exact destroy_eq _ _
  | commit g placement =>
      simp only [step, call, GuardVariable.commit]
      cases (s.guardAt g).bound <;> rfl
  | release g =>
      simp only [step, call, GuardVariable.release]
      cases (s.guardAt g).bound <;> rfl
  | destroy g => exact destroy_eq _ _
  | _ => rfl

theorem ledger_run (s : GuardProgram) (ops : List GuardOp) :
    (Runs.run step s ops).ledger = Runs.run ReservationLedger.exec s.ledger (calls s ops) := by
  induction ops generalizing s with
  | nil => rfl
  | cons op ops ih => rw [Runs.run_cons, ih, ledger_step, calls, Runs.run_append]

end GuardProgram

/-! ### A reservation that `reserve` returned -/

namespace ReservationLedger

/-- The ledger has a record of the reservation, of the generation it was made in. -/
def Knows (l : ReservationLedger) (res : Reservation) : Prop :=
  ∃ r, l.reservations.lookup res.id = some r ∧ r.generation = res.generation

theorem Knows.exec {l : ReservationLedger} {res : Reservation} (h : l.Knows res) (op : LedgerOp) :
    (l.exec op).Knows res := by
  obtain ⟨r, hr, hgen⟩ := h
  obtain ⟨-, hsame⟩ | ⟨-, hnone, -⟩ | ⟨-, r', r'', hr', hr'', hgen', -⟩ :=
    lookup_exec_cases res.id l op
  · exact ⟨r, by rw [hsame, hr], hgen⟩
  · rw [hnone] at hr
    cases hr
  · rw [hr] at hr'
    obtain rfl := Option.some.inj hr'
    exact ⟨r'', hr'', hgen'.trans hgen⟩

theorem knows_of_reserve {l l' : ReservationLedger} {backend : StorageBackendId} {bytes : UInt64}
    {gen : ReservationGeneration} {owner : WorkerId} {reason : Bytes} {res : Reservation}
    (h : l.reserve backend bytes gen owner reason = (.ok res, l')) :
    l'.Knows res ∧ res.state = .active := by
  obtain ⟨⟨s, hs⟩, -⟩ | ⟨c, res', -, -, -, -, -, hactive, -, heq⟩ :=
    reserve_cases l backend bytes gen owner reason
  · rw [h] at hs
    cases hs
  · rw [h] at heq
    obtain ⟨hres, rfl⟩ := Prod.mk.inj heq
    obtain rfl := Except.ok.inj hres
    exact ⟨⟨res, AList.lookup_insert _, rfl⟩, hactive⟩

theorem settled_release {l : ReservationLedger} (hl : Conserved l) (hflags : Flagged l)
    {res : Reservation} (h : l.Knows res) :
    Settled res.id (l.exec (.release res.id res.generation)) := by
  obtain ⟨r, hr, hgen⟩ := h
  by_cases hsettled : r.state = .committed ∨ r.state = .released
  · exact Settled.exec ⟨r, hr, hsettled⟩ hflags _
  · rw [not_or] at hsettled
    obtain ⟨hcommitted, hreleased⟩ := hsettled
    have hopen : r.committed = false := by simpa [hcommitted] using hflags.committed _ r hr
    have hactive : r.state = .active := hflags.active hr hreleased hopen
    obtain ⟨c, hc⟩ := AList.mem_iff_lookup.mp (hl.known _ r hr hactive)
    have hroom : ¬c.reservedBytes < r.bytes := fun hlt =>
      hl.not_underflows hflags res.id ⟨r, c, hr, .inl hactive, hc, hlt⟩
    apply settled_of_settles
    simp [settles, release, hr, hactive, hgen, hopen, hc, hroom]

theorem settled_of_commit {l : ReservationLedger} {id : ReservationId} {placement : PlacementId}
    (h : (l.commit id placement).1.isOk = true) : Settled id (l.exec (.commit id placement)) :=
  settled_of_settles (by simp [settles, h])

end ReservationLedger

open ReservationLedger

/-! ### Guards and settlements -/

/-- The guard has yet to release the reservation `id`. -/
structure GuardVariable.Owes (v : GuardVariable) (id : ReservationId) : Prop where
  bound : v.bound = true
  armed : v.guard.armed = true
  id : v.guard.res.id = id

namespace GuardProgram

/-- An armed guard is about a reservation that the ledger knows, and its copy of it
says that it is active. -/
def Holding (s : GuardProgram) (v : GuardVariable) : Prop :=
  v.bound = true → v.guard.armed = true →
    s.ledger.Knows v.guard.res ∧ v.guard.res.state = .active

/-- The reservation `id` is settled, or a guard that is alive has yet to release it. -/
def Covered (s : GuardProgram) (id : ReservationId) : Prop :=
  Settled id s.ledger ∨ ∃ g v, s.guards.lookup g = some v ∧ v.Owes id

structure Sound (s : GuardProgram) : Prop where
  conserved : Conserved s.ledger
  flagged : Flagged s.ledger
  returned : ∀ res ∈ s.returned, s.ledger.Knows res ∧ res.state = .active
  holding : s.guards.All fun _ v => s.Holding v
  covered : ∀ res ∈ s.guarded, s.Covered res.id

theorem sound_start (allowance : UInt64) : Sound (start allowance) where
  conserved := conserved_empty allowance
  flagged := flagged_empty allowance
  returned _ hres := nomatch hres
  holding := AList.all_empty
  covered _ hres := nomatch hres

theorem guardAt_of_lookup {s : GuardProgram} {g : Nat} {v : GuardVariable}
    (h : s.guards.lookup g = some v) : s.guardAt g = v := by
  rw [guardAt, h]
  rfl

theorem settled_destroy {s : GuardProgram} (h : Sound s) {g : Nat} {v : GuardVariable}
    (hv : s.guards.lookup g = some v) {id : ReservationId} (howes : v.Owes id) :
    Settled id ((s.guardAt g).destroy s.ledger) := by
  obtain ⟨hbound, harmed, rfl⟩ := howes
  obtain ⟨hknows, hactive⟩ := h.holding g v hv hbound harmed
  rw [guardAt_of_lookup hv, destroy_eq, destroyCall, hbound, harmed, hactive]
  exact settled_release h.conserved h.flagged hknows

/-! ### One operation -/

theorem regular_call {s : GuardProgram} {op : GuardOp} (hop : s.Permitted op) :
    ∀ c ∈ s.call op, Regular s.ledger c := by
  have hdestroy : ∀ v, ∀ c ∈ destroyCall v, Regular s.ledger c := by
    intro v c hc
    unfold destroyCall at hc
    split at hc
    · cases hc
      trivial
    · cases hc
  intro c hc
  cases op with
  | registerBackend backend cap =>
      cases hc
      exact hop
  | reserve backend bytes gen owner reason =>
      cases hc
      trivial
  | moveAssign g other =>
      simp only [call] at hc
      split at hc
      · cases hc
      · exact hdestroy _ c hc
  | commit g placement =>
      simp only [call] at hc
      split at hc <;> cases hc
      trivial
  | release g =>
      simp only [call] at hc
      split at hc <;> cases hc
      trivial
  | destroy g => exact hdestroy _ c hc
  | create g res => cases hc
  | empty g => cases hc
  | moveConstruct g other => cases hc

theorem step_ledger {P : ReservationLedger → Prop} {s : GuardProgram} (op : GuardOp)
    (hs : P s.ledger) (hcall : ∀ c ∈ s.call op, P (s.ledger.exec c)) : P (s.step op).ledger := by
  rw [ledger_step]
  cases hc : s.call op with
  | none => exact hs
  | some c => exact hcall c hc

theorem knows_step {s : GuardProgram} {res : Reservation} (h : s.ledger.Knows res) (op : GuardOp) :
    (s.step op).ledger.Knows res :=
  step_ledger (P := fun l => l.Knows res) op h fun c _ => h.exec c

theorem Holding.step {s : GuardProgram} {v : GuardVariable} (h : s.Holding v) (op : GuardOp) :
    (s.step op).Holding v := fun hbound harmed =>
  ⟨knows_step (h hbound harmed).1 op, (h hbound harmed).2⟩

theorem holding_of_unarmed {s : GuardProgram} {v : GuardVariable} (h : v.guard.armed = false) :
    s.Holding v := by
  intro _ harmed
  rw [h] at harmed
  cases harmed

theorem Sound.guardAt {s : GuardProgram} (h : Sound s) {g : Nat} (hg : g ∈ s.guards) :
    s.guards.lookup g = some (s.guardAt g) ∧ s.Holding (s.guardAt g) := by
  obtain ⟨v, hv⟩ := AList.mem_iff_lookup.mp hg
  rw [guardAt_of_lookup hv]
  exact ⟨hv, h.holding g v hv⟩

theorem holding_transfer {s t : GuardProgram} {g other : Nat}
    (hguards : s.guards.All fun _ v => t.Holding v) (hother : t.Holding (s.guardAt other)) :
    (s.transfer g other).All fun _ v => t.Holding v :=
  (hguards.insert hother).insert (holding_of_unarmed rfl)

theorem commit_cases (v : GuardVariable) (l : ReservationLedger) (placement : PlacementId) :
    (v.commit l placement).2.1 = v ∨
      (v.commit l placement).2.1.guard.armed = false ∧ v.bound = true ∧
        (l.commit v.guard.res.id placement).1.isOk = true := by
  obtain ⟨bound, guard⟩ := v
  unfold GuardVariable.commit ReservationGuard.commit
  cases bound with
  | false => exact .inl rfl
  | true =>
      rcases hcall : l.commit guard.res.id placement with ⟨st, l'⟩
      cases hok : st.isOk with
      | false => exact .inl (by simp [hok])
      | true => exact .inr (by simp [hok])

theorem release_cases (v : GuardVariable) (l : ReservationLedger) :
    (v.release l).2.1 = v ∨
      (v.release l).2.1.guard.armed = false ∧ v.bound = true ∧
        (l.release v.guard.res.id v.guard.res.generation).1.isOk = true := by
  obtain ⟨bound, guard⟩ := v
  unfold GuardVariable.release ReservationGuard.release
  cases bound with
  | false => exact .inl rfl
  | true =>
      rcases hcall : l.release guard.res.id guard.res.generation with ⟨st, l'⟩
      cases hok : st.isOk with
      | false => exact .inl (by simp [hok])
      | true => exact .inr (by simp [hok])

/-- Every guard that is alive after an operation is about what it is armed for. -/
theorem holding_step {s : GuardProgram} (h : Sound s) {op : GuardOp} (hop : s.Permitted op) :
    (s.step op).guards.All fun _ v => (s.step op).Holding v := by
  have hguards : s.guards.All fun _ v => (s.step op).Holding v :=
    fun g v hv => (h.holding g v hv).step op
  cases op with
  | registerBackend backend cap => exact hguards
  | reserve backend bytes gen owner reason => exact hguards
  | create g res => exact hguards.insert fun _ _ => h.returned res hop.2
  | empty g => exact hguards.insert (holding_of_unarmed rfl)
  | moveConstruct g other => exact holding_transfer hguards ((h.guardAt hop.2).2.step _)
  | moveAssign g other =>
      have hother := (h.guardAt hop.2).2.step (.moveAssign g other)
      -- assigning a guard to itself does nothing
      by_cases hself : g = other
      · simp only [step, if_pos hself] at hguards ⊢
        exact hguards
      · have htransfer := holding_transfer (g := g) hguards hother
        simp only [step, if_neg hself] at htransfer ⊢
        exact htransfer
  | commit g placement =>
      have hafter : (s.step (.commit g placement)).guards =
          s.guards.insert g ((s.guardAt g).commit s.ledger placement).2.1 := rfl
      rw [hafter]
      refine AList.All.insert hguards ?_
      obtain hsame | ⟨hdisarmed, -⟩ := commit_cases (s.guardAt g) s.ledger placement
      · rw [hsame]
        exact (h.guardAt hop).2.step _
      · exact holding_of_unarmed hdisarmed
  | release g =>
      have hafter : (s.step (.release g)).guards =
          s.guards.insert g ((s.guardAt g).release s.ledger).2.1 := rfl
      rw [hafter]
      refine AList.All.insert hguards ?_
      obtain hsame | ⟨hdisarmed, -⟩ := release_cases (s.guardAt g) s.ledger
      · rw [hsame]
        exact (h.guardAt hop).2.step _
      · exact holding_of_unarmed hdisarmed
  | destroy g =>
      intro g' v hv
      rw [show (s.step (.destroy g)).guards = s.guards.erase g from rfl, AList.lookup_erase_eq] at hv
      split at hv
      · cases hv
      · exact hguards g' v hv

/-- A guard that owes a release goes on to owe it, hands it on, or has settled it. -/
theorem covered_step {s : GuardProgram} (h : Sound s) {op : GuardOp} (hop : s.Permitted op)
    {id : ReservationId} (hc : s.Covered id) : (s.step op).Covered id := by
  obtain hsettled | ⟨g, v, hv, howes⟩ := hc
  · exact .inl (step_ledger (P := Settled id) op hsettled fun c _ => hsettled.exec h.flagged c)
  -- the guard is not the one that the operation is about
  have hkept : ∀ t : GuardProgram, t.guards.lookup g = some v → t.Covered id :=
    fun t ht => .inr ⟨g, v, ht, howes⟩
  have halive : g ∈ s.guards := AList.mem_iff_lookup.mpr ⟨v, hv⟩
  -- it is moved to `g'`
  have hmoved : ∀ g' : Nat, g' ≠ g → (s.transfer g' g).lookup g' = some v := by
    intro g' hne
    rw [transfer, AList.lookup_insert_ne hne, AList.lookup_insert, guardAt_of_lookup hv]
  have hothers : ∀ g' other : Nat, g ≠ g' → g ≠ other →
      (s.transfer g' other).lookup g = some v := by
    intro g' other hne hne'
    rw [transfer, AList.lookup_insert_ne hne', AList.lookup_insert_ne hne, hv]
  cases op with
  | registerBackend backend cap => exact hkept _ hv
  | reserve backend bytes gen owner reason => exact hkept _ hv
  | create g' res =>
      have hne : g ≠ g' := fun heq => hop.1 (heq ▸ halive)
      exact hkept _ ((AList.lookup_insert_ne hne).trans hv)
  | empty g' =>
      have hne : g ≠ g' := fun heq => hop (heq ▸ halive)
      exact hkept _ ((AList.lookup_insert_ne hne).trans hv)
  | moveConstruct g' other =>
      have hne : g ≠ g' := fun heq => hop.1 (heq ▸ halive)
      by_cases hother : other = g
      · subst hother
        exact .inr ⟨g', v, hmoved g' (Ne.symm hne), howes⟩
      · exact hkept _ (hothers g' other hne (Ne.symm hother))
  | moveAssign g' other =>
      by_cases hself : g' = other
      · simp only [step, if_pos hself]
        exact hkept _ hv
      · simp only [step, if_neg hself]
        by_cases htarget : g' = g
        · subst htarget
          exact .inl (settled_destroy h hv howes)
        · by_cases hother : other = g
          · subst hother
            exact .inr ⟨g', v, hmoved g' htarget, howes⟩
          · exact hkept _ (hothers g' other (Ne.symm htarget) (Ne.symm hother))
  | commit g' placement =>
      by_cases htarget : g' = g
      · subst htarget
        obtain hsame | ⟨-, -, hok⟩ := commit_cases (s.guardAt g') s.ledger placement
        · refine .inr ⟨g', v, ?_, howes⟩
          rw [guardAt_of_lookup hv] at hsame
          simp only [step, guardAt_of_lookup hv, hsame]
          exact AList.lookup_insert _
        · left
          rw [ledger_step]
          rw [guardAt_of_lookup hv, howes.id] at hok
          simp only [call, guardAt_of_lookup hv, howes.bound, howes.id, if_true]
          exact settled_of_commit hok
      · exact hkept _ ((AList.lookup_insert_ne (Ne.symm htarget)).trans hv)
  | release g' =>
      by_cases htarget : g' = g
      · subst htarget
        left
        rw [ledger_step]
        simp only [call, guardAt_of_lookup hv, howes.bound, if_true]
        rw [← howes.id]
        exact settled_release h.conserved h.flagged (h.holding g' v hv howes.bound howes.armed).1
      · exact hkept _ ((AList.lookup_insert_ne (Ne.symm htarget)).trans hv)
  | destroy g' =>
      by_cases htarget : g' = g
      · subst htarget
        exact .inl (settled_destroy h hv howes)
      · exact hkept _ ((AList.lookup_erase_ne (Ne.symm htarget)).trans hv)

theorem Sound.step {s : GuardProgram} (h : Sound s) {op : GuardOp} (hop : s.Permitted op) :
    Sound (s.step op) where
  conserved := step_ledger op h.conserved fun c hc =>
    h.conserved.exec h.flagged (regular_call hop c hc)
  flagged := step_ledger op h.flagged fun c _ => h.flagged.exec c
  returned res hres := by
    have hold : res ∈ s.returned → (s.step op).ledger.Knows res ∧ res.state = .active :=
      fun hres => ⟨knows_step (h.returned res hres).1 op, (h.returned res hres).2⟩
    cases op with
    | reserve backend bytes gen owner reason =>
        rcases hreserve : s.ledger.reserve backend bytes gen owner reason with ⟨r, l⟩
        simp only [GuardProgram.step, hreserve] at hres hold ⊢
        cases r with
        | error e => exact hold hres
        | ok res' =>
            obtain rfl | hres := List.mem_cons.mp hres
            · exact knows_of_reserve hreserve
            · exact hold hres
    | moveAssign g other =>
        by_cases hself : g = other <;> simp only [GuardProgram.step, hself, if_true, if_false] at hres
        · exact hold hres
        · exact hold hres
    | _ => exact hold hres
  holding := holding_step h hop
  covered res hres := by
    have hold : res ∈ s.guarded → (s.step op).Covered res.id :=
      fun hres => covered_step h hop (h.covered res hres)
    cases op with
    | create g res' =>
        obtain rfl | hres := List.mem_cons.mp hres
        · exact .inr ⟨g, _, AList.lookup_insert _, rfl, rfl, rfl⟩
        · exact hold hres
    | moveAssign g other =>
        by_cases hself : g = other <;> simp only [GuardProgram.step, hself, if_true, if_false] at hres
        · exact hold hres
        · exact hold hres
    | _ => exact hold hres

/-! ### Whole programs -/

theorem sound_run {allowance : UInt64} {ops : List GuardOp}
    (hops : Runs.Along step Permitted (start allowance) ops) :
    Sound (Runs.run step (start allowance) ops) :=
  Runs.invariant (fun _ _ h hop => h.step hop) (sound_start allowance) hops

def Destroyed (s : GuardProgram) : Prop := s.guards.keys = []

instance (s : GuardProgram) : Decidable s.Destroyed :=
  inferInstanceAs (Decidable (s.guards.keys = []))

/-- Once all guards of a program are destroyed, every reservation that one was created
from is committed or released, and was settled once. -/
theorem guards_settle (allowance : UInt64) (ops : List GuardOp)
    (hops : Runs.Along step Permitted (start allowance) ops)
    (hdestroyed : (Runs.run step (start allowance) ops).Destroyed) :
    ∀ res ∈ (Runs.run step (start allowance) ops).guarded,
      Settled res.id (Runs.run step (start allowance) ops).ledger ∧
        settlements res.id (.fresh allowance) (calls (start allowance) ops) = 1 := by
  intro res hres
  have hsettled : Settled res.id (Runs.run step (start allowance) ops).ledger := by
    obtain hsettled | ⟨g, v, hv, -⟩ := (sound_run hops).covered res hres
    · exact hsettled
    · have hkey : g ∈ (Runs.run step (start allowance) ops).guards.keys :=
        AList.mem_keys.mp (AList.mem_iff_lookup.mpr ⟨v, hv⟩)
      rw [hdestroyed] at hkey
      exact nomatch hkey
  refine ⟨hsettled, Nat.le_antisymm ?_ ?_⟩
  · exact (settlements_le (flagged_empty allowance) _).1
  · rw [ledger_run] at hsettled
    refine settlements_pos hsettled ?_
    rintro ⟨r, hr, -⟩
    cases hr

namespace Small

def reservation (id : Nat) (bytes : UInt64) : Reservation :=
  { id := ⟨id⟩, generation := ⟨1⟩, backend := ⟨1⟩, bytes, owner := ⟨1⟩ }

/-- Two guards; one is moved away and then settled through the variable it was in, and
takes the place of the other, which is released by that. -/
def ops : List GuardOp :=
  [.registerBackend ⟨1⟩ { totalBytes := 10, freeBytes := 10 },
    .reserve ⟨1⟩ 4 ⟨1⟩ ⟨1⟩ [], .reserve ⟨1⟩ 5 ⟨1⟩ ⟨1⟩ [],
    .create 0 (reservation 1 4), .create 1 (reservation 2 5), .empty 3, .moveConstruct 2 0,
    .commit 0 ⟨7⟩, .moveAssign 1 2, .moveAssign 1 1, .moveAssign 3 1, .release 1,
    .destroy 0, .destroy 1, .destroy 2, .destroy 3]

end Small

theorem guards_settle_small :
    Settled ⟨1⟩ (Runs.run step (start 0) Small.ops).ledger ∧
      settlements ⟨1⟩ (.fresh 0) (calls (start 0) Small.ops) = 1 :=
  guards_settle 0 Small.ops (by decide) (by decide) (Small.reservation 1 4) (by decide)

example : (Runs.run step (start 0) Small.ops).ledger.reservations.values.map
    (fun r => (r.id.value, r.state)) = [(2, .released), (1, .committed)] := by decide

end GuardProgram

end StorageFabric
