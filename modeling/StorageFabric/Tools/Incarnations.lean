import StorageFabric.Tools.Fencing

/-!
What the handshake hands out, and who can fence whom.

A connection keeps the epoch of its handshake, while the coordinator moves on with
every loss. A loss that is noticed after a fresher worker had its handshake
therefore fences that worker, and a mutation that carries more than what its
connection was handed fences it as well. Nothing else of an older incarnation does
(`spares_iff`).
-/

namespace StorageFabric

def Connection.incarnation (k : Connection) : Nat ×ₗ Nat := (k.handed default).incarnation

theorem Connection.incarnation_lt_iff {k l : Connection} :
    k.incarnation < l.incarnation ↔
      k.epoch.value.toNat < l.epoch.value.toNat ∨
      k.epoch.value.toNat = l.epoch.value.toNat ∧ k.boot.value < l.boot.value :=
  AuthorityEnvelope.incarnation_lt_iff

theorem Connection.triple_handed_lt_iff {k : Connection} {g : AuthorityGeneration}
    {a : AuthorityEnvelope} :
    a.triple < (k.handed g).triple ↔
      a.incarnation < k.incarnation ∨
      a.incarnation = k.incarnation ∧ a.generation.value.toNat < g.value.toNat :=
  AuthorityEnvelope.triple_lt_iff

namespace Process

variable {β : Type}

def opens (p : Process β) : Event β → Option Connection
  | .frame conn f env =>
      if conn ∈ p.connections then none else (p.hello conn f env.nowNs).2.connections.lookup conn
  | .lost _ => none

/-- The connection whose mutation or loss the event is. -/
def actor (p : Process β) (e : Event β) : Option Connection :=
  ((p.carried e).map Prod.fst).or (p.loses e)

def Open (p : Process β) (conn : Nat) (k : Connection) : Prop :=
  p.connections.lookup conn = some k

/-- A mutation of the connection under its own epoch and boot passes the gate. -/
def Passes (p : Process β) (k : Connection) (g : AuthorityGeneration) : Prop :=
  p.authority.triple < (k.handed g).triple

/-! ### Connections -/

/-- A handshake opens one connection, under the next nonce and the present epoch. -/
theorem hello_cases (p : Process β) (conn : Nat) (f : Frame) (nowNs : UInt64) :
    (p.hello conn f nowNs).2 = p ∨
    ∃ worker, (p.hello conn f nowNs).2.bootNonce = p.bootNonce + 1 ∧
      (p.hello conn f nowNs).2.connections = p.connections.insert conn {
        nonce := p.bootNonce + 1
        boot := bootId nowNs (p.bootNonce + 1)
        worker
        epoch := p.authority.epoch } := by
  unfold hello
  split
  · exact .inl rfl
  · split
    · exact .inl rfl
    · exact .inr ⟨_, rfl, rfl⟩

theorem bootId_ne_zero (nowNs : UInt64) (nonce : Nat) : (bootId nowNs nonce).value ≠ 0 := by
  rw [bootId]
  dsimp only
  split
  · decide
  · next h =>
      intro hzero
      exact h (UInt64.toNat_inj.mp hzero)

section Connections

variable [StorageBackend β]

theorem connections_request (p : Process β) (conn : Nat) (k : Connection) (f : Frame)
    (env : Env β) :
    (p.request conn k f env).2.bootNonce = p.bootNonce ∧
      ((p.request conn k f env).2.connections = p.connections ∨
        (p.request conn k f env).2.connections =
          p.connections.modify conn fun k => { k with closing := true }) := by
  unfold request
  cases f.kind with
  | goodbye => exact ⟨rfl, .inr rfl⟩
  | _ => exact ⟨rfl, .inl rfl⟩

/-- A connection that was just opened. -/
structure Opened (p : Process β) (e : Event β) (k : Connection) : Prop where
  opens : p.opens e = some k
  nonce : k.nonce = p.bootNonce + 1
  bootNonce : (p.step e).bootNonce = p.bootNonce + 1
  boot : k.boot.value ≠ 0
  epoch : k.epoch = p.authority.epoch

theorem open_step {p : Process β} {e : Event β} {conn : Nat} {k : Connection}
    (h : (p.step e).Open conn k) :
    p.Opened e k ∨ ∃ l, p.Open conn l ∧ (k = l ∨ k = { l with closing := true }) := by
  cases e with
  | lost lostConn =>
      refine .inr ⟨k, ?_, .inl rfl⟩
      rw [Open, step, drop] at h
      cases hlost : p.connections.lookup lostConn with
      | none => rwa [hlost] at h
      | some l =>
          rw [hlost] at h
          have hlookup := AList.lookup_erase_eq lostConn conn p.connections
          rw [show p.connections.erase lostConn = _ from rfl, h] at hlookup
          split at hlookup
          · cases hlookup
          · exact hlookup.symm
  | frame frameConn f env =>
      rw [Open, step, receive] at h
      cases hconn : p.connections.lookup frameConn with
      | none =>
          rw [hconn] at h
          have hnew : frameConn ∉ p.connections := AList.notMem_iff_lookup.mpr hconn
          -- only a handshake opens a connection
          obtain hsame | ⟨worker, hnonce, hconnections⟩ := p.hello_cases frameConn f env.nowNs
          · exact .inr ⟨k, by rwa [hsame] at h, .inl rfl⟩
          · rw [hconnections, AList.lookup_insert_eq_some] at h
            obtain ⟨rfl, rfl⟩ | ⟨-, h⟩ := h
            · refine .inl ⟨?_, rfl, ?_, bootId_ne_zero _ _, rfl⟩
              · rw [opens, if_neg hnew, hconnections, AList.lookup_insert]
              · rw [step, receive, hconn]
                exact hnonce
            · exact .inr ⟨k, h, .inl rfl⟩
      | some l =>
          rw [hconn] at h
          refine .inr ?_
          dsimp only at h
          split at h
          · exact ⟨k, h, .inl rfl⟩
          -- a request can at most close its own connection
          · obtain ⟨-, hsame | hclosed⟩ := p.connections_request frameConn l f env
            · exact ⟨k, by rwa [hsame] at h, .inl rfl⟩
            · rw [hclosed] at h
              obtain ⟨l', hl', rfl⟩ := AList.lookup_modify_eq_some.mp h
              refine ⟨l', hl', ?_⟩
              split
              · exact .inr rfl
              · exact .inl rfl

theorem bootNonce_step (p : Process β) (e : Event β) : p.bootNonce ≤ (p.step e).bootNonce := by
  cases e with
  | lost conn =>
      rw [step, drop]
      cases p.connections.lookup conn <;> exact le_refl _
  | frame conn f env =>
      rw [step, receive]
      cases p.connections.lookup conn with
      | none =>
          obtain hsame | ⟨-, hnonce, -⟩ := p.hello_cases conn f env.nowNs
          · rw [hsame]
          · dsimp only
            omega
      | some k =>
          dsimp only
          split
          · exact le_refl _
          · exact (p.connections_request conn k f env).1.ge

end Connections

/-! ### Fencing a fresher incarnation -/

/-- The baseline of the next epoch is below an incarnation that is not of a lower
epoch. -/
theorem passes_after_loss {k : Connection} (hboot : k.boot.value ≠ 0) {epoch : CoordinatorEpoch}
    {g : AuthorityGeneration} :
    (Coordinator.baseline epoch).triple < (k.handed g).triple ↔ epoch.value ≤ k.epoch.value := by
  rw [AuthorityEnvelope.triple_lt_iff, AuthorityEnvelope.incarnation_lt_iff,
    AuthorityEnvelope.incarnation_eq_iff, UInt64.le_iff_toNat_le]
  show (epoch.value.toNat < k.epoch.value.toNat ∨
      epoch.value.toNat = k.epoch.value.toNat ∧ 0 < k.boot.value) ∨
    (epoch = k.epoch ∧ ⟨0⟩ = k.boot) ∧ 0 < g.value.toNat ↔ _
  constructor
  · rintro ((hlt | ⟨heq, -⟩) | ⟨⟨rfl, -⟩, -⟩)
    · omega
    · omega
    · exact le_refl _
  · intro hle
    left
    omega

/-- An accepted envelope leaves the envelopes of an incarnation in force exactly if
it is below the incarnation. -/
theorem passes_after_mutation {p : Process β} {k : Connection} {a : AuthorityEnvelope}
    (hnewer : p.authority.triple < a.triple) (hlive : ∃ g, p.Passes k g) :
    (∀ g, p.Passes k g → a.triple < (k.handed g).triple) ↔ a.incarnation < k.incarnation := by
  constructor
  · intro h
    by_contra hnot
    obtain ⟨g, hg⟩ := hlive
    obtain hlt | ⟨heq, hgen⟩ := Connection.triple_handed_lt_iff.mp (h g hg)
    · exact hnot hlt
    · -- the same generation passed before, and does not after
      have hsame : (k.handed a.generation).triple = a.triple :=
        congrArg (fun i => toLex (i, a.generation.value.toNat)) heq.symm
      have hself := h a.generation (by rw [Passes, hsame]; exact hnewer)
      rw [hsame] at hself
      exact lt_irrefl _ hself
  · exact fun h g _ => Connection.triple_handed_lt_iff.mpr (.inl h)

section Fencing

variable [StorageBackend β]

/-- The connection is open and could still have a mutation accepted. -/
def Live (p : Process β) (conn : Nat) (k : Connection) : Prop :=
  p.Open conn k ∧ k.closing = false ∧ ∃ g, p.Passes k g

/-- No mutation and no loss of an incarnation turns down an envelope of a connection
that had its handshake later. -/
def SparesFresh (p : Process β) (e : Event β) : Prop :=
  ∀ old, p.actor e = some old → ∀ conn fresh, p.Open conn fresh → fresh.closing = false →
    old.nonce < fresh.nonce → ∀ g, p.Passes fresh g → (p.step e).Passes fresh g

/-- No live incarnation is fresher than one that is lost, unless the next epoch is
not above its own; and a mutation is below every fresher live incarnation. -/
structure Orderly (p : Process β) (e : Event β) : Prop where
  loss : ∀ old, p.loses e = some old → ∀ conn fresh, p.Live conn fresh →
    old.nonce < fresh.nonce → p.authority.epoch.next.value ≤ fresh.epoch.value
  mutation : ∀ old a, p.accepts e = some (old, a) → ∀ conn fresh, p.Live conn fresh →
    old.nonce < fresh.nonce → a.incarnation < fresh.incarnation

/-- All open connections have a boot id. -/
def Booted (p : Process β) : Prop := ∀ conn k, p.Open conn k → k.boot.value ≠ 0

theorem booted_step {p : Process β} (h : p.Booted) (e : Event β) : (p.step e).Booted := by
  intro conn k hk
  obtain hopened | ⟨l, hl, rfl | rfl⟩ := open_step hk
  · exact hopened.boot
  · exact h conn k hl
  · exact h conn l hl

theorem recover_silent {p : Process β} {e : Event β} (he : e.isRecover = true) :
    p.accepts e = none ∧ p.carried e = none ∧ p.loses e = none := by
  cases e with
  | lost conn => cases he
  | frame conn f env =>
      have hkind : f.kind = .recover := of_decide_eq_true he
      have henvelope : f.envelope = none :=
        Frame.envelope_of_kind ⟨by rw [hkind]; decide, by rw [hkind]; decide⟩
      have hcarried : p.carried (.frame conn f env) = none := by
        rw [carried]
        cases p.connections.lookup conn with
        | none => rfl
        | some k =>
            dsimp only
            rw [henvelope]
            split <;> rfl
      exact ⟨by rw [accepts, hcarried]; rfl, hcarried, rfl⟩

theorem sparesFresh_iff_of_step {p : Process β} (hbooted : p.Booted) {e : Event β}
    (he : e.isRecover = false) : p.SparesFresh e ↔ p.Orderly e := by
  cases p.step_authority he with
  | mutation k a haccepts hloses haccepted =>
      have hactor : p.actor e = some k := by
        rw [actor, haccepted.carried]
        rfl
      -- the authority is now the envelope that was accepted
      have hpasses : ∀ fresh g, (p.step e).Passes fresh g ↔ a.triple < (fresh.handed g).triple := by
        intro fresh g
        rw [Passes, haccepted.authority]
      constructor
      · intro h
        refine ⟨fun old hold => ?_, fun old b hold conn fresh hfresh hnonce => ?_⟩
        · rw [hloses] at hold
          cases hold
        · rw [haccepts] at hold
          obtain ⟨rfl, rfl⟩ := Prod.mk.inj (Option.some.inj hold)
          obtain ⟨hopen, hclosing, hlive⟩ := hfresh
          refine (passes_after_mutation haccepted.newer hlive).mp fun g hg => ?_
          exact (hpasses fresh g).mp (h k hactor conn fresh hopen hclosing hnonce g hg)
      · intro h old hold conn fresh hopen hclosing hnonce g hg
        rw [hactor] at hold
        obtain rfl := Option.some.inj hold
        have hbelow := h.mutation k a haccepts conn fresh ⟨hopen, hclosing, g, hg⟩ hnonce
        exact (hpasses fresh g).mpr (Connection.triple_handed_lt_iff.mpr (.inl hbelow))
  | loss k haccepts hloses heq =>
      have hactor : p.actor e = some k := by
        cases e with
        | frame conn f env => cases hloses
        | lost conn => exact hloses
      -- the authority is now the baseline of the next epoch
      have hpasses : ∀ conn fresh g, p.Open conn fresh →
          ((p.step e).Passes fresh g ↔ p.authority.epoch.next.value ≤ fresh.epoch.value) := by
        intro conn fresh g hopen
        rw [Passes, heq]
        exact passes_after_loss (hbooted conn fresh hopen)
      constructor
      · intro h
        refine ⟨fun old hold conn fresh hfresh hnonce => ?_, fun old b hold => ?_⟩
        · rw [hloses] at hold
          obtain rfl := Option.some.inj hold
          obtain ⟨hopen, hclosing, g, hg⟩ := hfresh
          exact (hpasses conn fresh g hopen).mp (h k hactor conn fresh hopen hclosing hnonce g hg)
        · rw [haccepts] at hold
          cases hold
      · intro h old hold conn fresh hopen hclosing hnonce g hg
        rw [hactor] at hold
        obtain rfl := Option.some.inj hold
        exact (hpasses conn fresh g hopen).mpr
          (h.loss k hloses conn fresh ⟨hopen, hclosing, g, hg⟩ hnonce)
  | other haccepts hloses heq =>
      constructor
      · refine fun _ => ⟨fun old hold => ?_, fun old b hold => ?_⟩
        · rw [hloses] at hold
          cases hold
        · rw [haccepts] at hold
          cases hold
      · intro _ old _ conn fresh _ _ _ g hg
        rw [Passes, heq]
        exact hg

theorem sparesFresh_iff {p : Process β} (hbooted : p.Booted) (e : Event β) :
    p.SparesFresh e ↔ p.Orderly e := by
  cases he : e.isRecover with
  | false => exact sparesFresh_iff_of_step hbooted he
  | true =>
      obtain ⟨haccepts, hcarried, hloses⟩ := recover_silent (p := p) he
      refine ⟨fun _ => ⟨fun old hold => ?_, fun old b hold => ?_⟩, fun _ old hold => ?_⟩
      · rw [hloses] at hold
        cases hold
      · rw [haccepts] at hold
        cases hold
      · rw [actor, hcarried, hloses] at hold
        cases hold

/-- In a run of the coordinator no mutation and no loss of an incarnation fences a
fresher one exactly if every step is orderly. -/
theorem runs_spare_iff (metadataPath coordRoot : Bytes) (be : β × Result BackendCapacity)
    (files : Table Bytes Bytes) (es : List (Event β)) :
    Runs.Along step SparesFresh (start metadataPath coordRoot be files) es ↔
      Runs.Along step Orderly (start metadataPath coordRoot be files) es := by
  have hstart : (start metadataPath coordRoot be files).Booted := fun _ _ h => nomatch h
  constructor
  · exact Runs.Along.mono_of_invariant (fun p e hp _ => booted_step hp e)
      (fun p e hp => (sparesFresh_iff hp e).mp) hstart
  · exact Runs.Along.mono_of_invariant (fun p e hp _ => booted_step hp e)
      (fun p e hp => (sparesFresh_iff hp e).mpr) hstart

/-- The loss of the first worker is noticed after the handshake of the second,
which is then turned down. -/
theorem loss_fences_fresh :
    ¬Runs.Along step SparesFresh smallProcess (handshakes ++ [.lost 1]) := by
  intro h
  have hlast := (Runs.along_append.mp h).2.1
  generalize hs : Runs.run step smallProcess handshakes = s at hlast
  have hrun : s.actor (.lost 1) = some ⟨1, ⟨1⟩, ⟨7⟩, ⟨1⟩, false⟩ ∧
      s.connections.lookup 2 = some ⟨2, ⟨2⟩, ⟨8⟩, ⟨1⟩, false⟩ ∧
      (s.stale (dispatch 2 1 2 1)).isNone ∧
      ((s.step (.lost 1)).stale (dispatch 2 1 2 1)).isSome ∧
      s.authority.epoch = ⟨1⟩ ∧ s.authority.boot = ⟨0⟩ ∧
      (s.step (.lost 1)).authority.epoch = ⟨2⟩ := by
    rw [← hs]
    decide +kernel
  obtain ⟨hactor, hopen, -, -, hepoch, hboot, hafter⟩ := hrun
  have hpasses : s.Passes ⟨2, ⟨2⟩, ⟨8⟩, ⟨1⟩, false⟩ ⟨1⟩ := by
    refine Connection.triple_handed_lt_iff.mpr (.inl (AuthorityEnvelope.incarnation_lt_iff.mpr
      (.inr ?_)))
    rw [hepoch, hboot]
    decide
  have hspared := hlast _ hactor 2 _ hopen rfl (by decide) ⟨1⟩ hpasses
  have hle := AuthorityEnvelope.epoch_le_of_triple_le hspared.le
  rw [hafter] at hle
  exact absurd hle (by decide)

end Fencing

/-! ### What is handed out -/

section Handed

variable [StorageBackend β]

/-- The boot id of a handshake is above those of the open connections. -/
def BootsIncrease (p : Process β) (e : Event β) : Prop :=
  ∀ k, p.opens e = some k → ∀ conn l, p.Open conn l → l.boot.value < k.boot.value

/-- No open connection has an epoch above the stored one, or a nonce that is still to
come. -/
structure Handed (p : Process β) : Prop where
  epoch_le : ∀ conn k, p.Open conn k → k.epoch.value ≤ p.authority.epoch.value
  nonce_le : ∀ conn k, p.Open conn k → k.nonce ≤ p.bootNonce

/-- The later of two handshakes handed out the higher incarnation. -/
def Ordered (p : Process β) : Prop :=
  ∀ conn k conn' k', p.Open conn k → p.Open conn' k' → k.nonce < k'.nonce →
    k.incarnation < k'.incarnation

theorem handed_step {p : Process β} (h : p.Handed) {e : Event β} (he : p.KeepsFence e) :
    (p.step e).Handed where
  epoch_le conn k hk := by
    have hstored := AuthorityEnvelope.epoch_le_of_triple_le (authority_le he)
    obtain hopened | ⟨l, hl, rfl | rfl⟩ := open_step hk
    · rw [hopened.epoch]
      exact hstored
    · exact UInt64.le_trans (h.epoch_le conn k hl) hstored
    · exact UInt64.le_trans (h.epoch_le conn l hl) hstored
  nonce_le conn k hk := by
    have hnonce := bootNonce_step p e
    obtain hopened | ⟨l, hl, rfl | rfl⟩ := open_step hk
    · rw [hopened.nonce, hopened.bootNonce]
    · exact Nat.le_trans (h.nonce_le conn k hl) hnonce
    · exact Nat.le_trans (h.nonce_le conn l hl) hnonce

/-- Boot ids that increase keep the incarnations in the order of the handshakes. -/
theorem ordered_step {p : Process β} (hhanded : p.Handed) (h : p.Ordered) {e : Event β}
    (hboots : p.BootsIncrease e) : (p.step e).Ordered := by
  -- an open connection before the step, with the same handshake
  have hbefore : ∀ conn k, (p.step e).Open conn k → p.Opened e k ∨
      ∃ l, p.Open conn l ∧ l.nonce = k.nonce ∧ l.epoch = k.epoch ∧ l.boot = k.boot := by
    intro conn k hk
    obtain hopened | ⟨l, hl, rfl | rfl⟩ := open_step hk
    · exact .inl hopened
    · exact .inr ⟨k, hl, rfl, rfl, rfl⟩
    · exact .inr ⟨l, hl, rfl, rfl, rfl⟩
  intro conn k conn' k' hk hk' hnonce
  obtain hnew | ⟨l, hl, hlnonce, hlepoch, hlboot⟩ := hbefore conn k hk
  · obtain hnew' | ⟨l', hl', hlnonce', -, -⟩ := hbefore conn' k' hk'
    · have := hnew.nonce
      have := hnew'.nonce
      omega
    · have := hnew.nonce
      have := hhanded.nonce_le conn' l' hl'
      omega
  · obtain hnew' | ⟨l', hl', hlnonce', hlepoch', hlboot'⟩ := hbefore conn' k' hk'
    · have hboot := hboots k' hnew'.opens conn l hl
      have hepoch := UInt64.le_iff_toNat_le.mp (hhanded.epoch_le conn l hl)
      rw [Connection.incarnation_lt_iff, hnew'.epoch, ← hlepoch, ← hlboot]
      omega
    · have hold := h conn l conn' l' hl hl' (by omega)
      rw [Connection.incarnation_lt_iff] at hold ⊢
      rwa [← hlepoch, ← hlboot, ← hlepoch', ← hlboot']

theorem open_of_accepts {p : Process β} {e : Event β} {k : Connection} {a : AuthorityEnvelope}
    (h : p.accepts e = some (k, a)) : ∃ conn, p.Open conn k := by
  cases e with
  | lost conn => cases h
  | frame conn f env =>
      obtain ⟨hcarried, -⟩ := Option.filter_eq_some_iff.mp h
      rw [carried] at hcarried
      cases hconn : p.connections.lookup conn with
      | none =>
          rw [hconn] at hcarried
          cases hcarried
      | some l =>
          rw [hconn] at hcarried
          dsimp only at hcarried
          split at hcarried
          · cases hcarried
          · obtain ⟨b, -, heq⟩ := Option.map_eq_some_iff.mp hcarried
            obtain ⟨rfl, -⟩ := Prod.mk.inj heq
            exact ⟨conn, hconn⟩

/-- In a run without recoveries in which the boot ids increase, a mutation that
carries what its own connection was handed is below every fresher connection. -/
theorem own_mutation_below {p : Process β} {es : List (Event β)} (hhanded : p.Handed)
    (hordered : p.Ordered)
    (h : Runs.Along step (fun p e => p.KeepsFence e ∧ p.BootsIncrease e) p es) :
    Runs.Along step (fun p e => ∀ old a, p.accepts e = some (old, a) →
      a.epoch = old.epoch → a.boot = old.boot → ∀ conn fresh,
        p.Open conn fresh → old.nonce < fresh.nonce → a.incarnation < fresh.incarnation) p es := by
  refine Runs.Along.mono_of_invariant (I := fun p => p.Handed ∧ p.Ordered) ?_ ?_
    ⟨hhanded, hordered⟩ h
  · exact fun p e hp he => ⟨handed_step hp.1 he.1, ordered_step hp.1 hp.2 he.2⟩
  · intro p e hp _ old a haccepts hepoch hboot conn fresh hfresh hnonce
    obtain ⟨oldConn, hopen⟩ := open_of_accepts haccepts
    have hsame : a.incarnation = old.incarnation :=
      AuthorityEnvelope.incarnation_eq_iff.mpr ⟨hepoch, hboot⟩
    rw [hsame]
    exact hp.2 oldConn old conn fresh hopen hfresh hnonce

/-! ### Whose epoch it is -/

/-- An accepted mutation carries the boot id of its connection and an epoch that is
not above the stored one. -/
def OwnEnvelope (p : Process β) (e : Event β) : Prop :=
  ∀ r ∈ p.accepts e, r.2.boot = r.1.boot ∧ r.2.epoch.value ≤ p.authority.epoch.value

instance (p : Process β) (e : Event β) : Decidable (p.OwnEnvelope e) := by
  unfold OwnEnvelope
  infer_instance

/-- An accepted mutation carries an epoch that is not above the stored one. -/
def OwnEpoch (p : Process β) (e : Event β) : Prop :=
  ∀ r ∈ p.accepts e, r.2.epoch.value ≤ p.authority.epoch.value

/-- A mutating request carries no more than the epoch that its connection was handed.
Nothing makes a worker do that: it can be told to send any epoch and boot. -/
def CarriesHanded (p : Process β) (e : Event β) : Prop :=
  ∀ r ∈ p.carried e, r.2.epoch.value ≤ r.1.epoch.value

instance (p : Process β) (e : Event β) : Decidable (p.CarriesHanded e) := by
  unfold CarriesHanded
  infer_instance

theorem ownEpoch_of_handed {p : Process β} (h : p.Handed) {e : Event β}
    (he : p.KeepsFence e) (hcarries : p.CarriesHanded e) :
    p.OwnEpoch e ∧ (p.loses e = none → (p.step e).authority.epoch = p.authority.epoch) := by
  cases p.step_authority he.1 with
  | mutation k a haccepts _ haccepted =>
      obtain ⟨conn, hopen⟩ := open_of_accepts haccepts
      have hepoch : a.epoch.value ≤ k.epoch.value := hcarries (k, a) haccepted.carried
      have hle : a.epoch.value ≤ p.authority.epoch.value :=
        UInt64.le_trans hepoch (h.epoch_le conn k hopen)
      have hge := AuthorityEnvelope.epoch_le_of_triple_le haccepted.newer.le
      refine ⟨fun r hr => ?_, fun _ => ?_⟩
      · rw [haccepts] at hr
        obtain rfl := Option.some.inj hr
        exact hle
      · rw [haccepted.authority]
        exact Generation.ext (UInt64.le_antisymm hle hge)
  | loss k haccepts hloses _ =>
      refine ⟨fun r hr => ?_, fun hnone => ?_⟩
      · rw [haccepts] at hr
        cases hr
      · rw [hloses] at hnone
        cases hnone
  | other haccepts _ heq =>
      refine ⟨fun r hr => ?_, fun _ => by rw [heq]⟩
      rw [haccepts] at hr
      cases hr

/-- In a run without a recovery an accepted mutation is above what is stored and
replaces it as a whole, and only a loss changes it otherwise. If the requests carry no
more than the epochs that their connections were handed, every accepted one carries an
epoch that is not above the stored one, and the epoch changes only with a loss. -/
theorem gate_adopts (metadataPath coordRoot : Bytes) (be : β × Result BackendCapacity)
    (files : Table Bytes Bytes) (es : List (Event β))
    (h : Runs.Along step (fun _ e => e.isRecover = false)
      (start metadataPath coordRoot be files) es) :
    Runs.Along step (fun p e =>
      (∀ r ∈ p.accepts e, p.authority.triple < r.2.triple ∧ (p.step e).authority = r.2) ∧
      (p.accepts e = none → p.loses e = none → (p.step e).authority = p.authority))
      (start metadataPath coordRoot be files) es ∧
    (Runs.Along step (fun p e => p.KeepsFence e ∧ p.CarriesHanded e)
        (start metadataPath coordRoot be files) es →
      Runs.Along step (fun p e => p.OwnEpoch e ∧
        (p.loses e = none → (p.step e).authority.epoch = p.authority.epoch))
        (start metadataPath coordRoot be files) es) := by
  constructor
  · refine h.mono fun p e he => ?_
    cases p.step_authority he with
    | mutation k a haccepts _ haccepted =>
        refine ⟨fun r hr => ?_, fun hnone => ?_⟩
        · rw [haccepts] at hr
          obtain rfl := Option.some.inj hr
          exact ⟨haccepted.newer, haccepted.authority⟩
        · rw [haccepts] at hnone
          cases hnone
    | loss k haccepts hloses _ =>
        refine ⟨fun r hr => ?_, fun _ hnone => ?_⟩
        · rw [haccepts] at hr
          cases hr
        · rw [hloses] at hnone
          cases hnone
    | other haccepts _ heq =>
        refine ⟨fun r hr => ?_, fun _ _ => heq⟩
        rw [haccepts] at hr
        cases hr
  · have hstart : (start metadataPath coordRoot be files).Handed :=
      ⟨fun _ _ hopen => (nomatch hopen), fun _ _ hopen => (nomatch hopen)⟩
    exact Runs.Along.mono_of_invariant (fun p e hp he => handed_step hp he.1)
      (fun p e hp he => ownEpoch_of_handed hp he.1 he.2) hstart

/-- A worker takes the epoch ahead under a boot id that nobody has. -/
theorem foreign_envelope_accepted :
    ¬Runs.Along step OwnEnvelope smallProcess (handshakes ++ [dispatch 1 9 5 1]) := by
  decide +kernel

theorem gate_adopts_replay :
    Runs.Along step (fun p e => p.OwnEpoch e ∧
      (p.loses e = none → (p.step e).authority.epoch = p.authority.epoch))
      smallProcess (handshakes ++ [dispatch 1 1 1 1, .lost 2, dispatch 1 1 1 2]) := by
  refine (gate_adopts [] (ascii "root") _ ∅ _ ?_).2 ?_
  · decide +kernel
  · decide +kernel

end Handed

end Process

end StorageFabric
