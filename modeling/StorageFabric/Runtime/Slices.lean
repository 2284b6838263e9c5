import StorageFabric.Runtime.Stored

/-!
How the chunk loop cuts a content, and what its chunks say about the slices.

The first rule is the induction over a loop that ends well: what every turn
establishes of its chunk and no later turn destroys holds of all chunks at the
end.
-/

namespace StorageFabric

/-- The slices of a content, in the order of the loop. -/
def slices (chunk : Nat) : Nat → Bytes → List Bytes
  | 0, _ => []
  | turns + 1, rest =>
      if rest = [] then [] else rest.take chunk :: slices chunk turns (rest.drop chunk)

@[simp] theorem slices_nil (chunk turns : Nat) : slices chunk turns [] = [] := by
  cases turns <;> simp [slices]

theorem slices_cons {chunk turns : Nat} {rest : Bytes} (h : rest ≠ []) :
    slices chunk (turns + 1) rest = rest.take chunk :: slices chunk turns (rest.drop chunk) := by
  rw [slices, if_neg h]

theorem flatten_slices {chunk : Nat} (hchunk : 0 < chunk) {turns : Nat} {rest : Bytes}
    (h : rest.length ≤ turns) : (slices chunk turns rest).flatten = rest := by
  induction turns generalizing rest with
  | zero =>
      have hnil : rest = [] := List.length_eq_zero_iff.mp (by omega)
      rw [hnil]
      rfl
  | succ turns ih =>
      by_cases hrest : rest = []
      · rw [hrest, slices_nil]
        rfl
      · have hpos : 0 < rest.length := List.length_pos_iff.mpr hrest
        have hdrop : (rest.drop chunk).length ≤ turns := by
          rw [List.length_drop]
          omega
        rw [slices_cons hrest, List.flatten_cons, ih hdrop, List.take_append_drop]

theorem ne_nil_of_mem_slices {chunk : Nat} (hchunk : 0 < chunk) {turns : Nat} {rest slice : Bytes}
    (h : slice ∈ slices chunk turns rest) : slice ≠ [] := by
  induction turns generalizing rest with
  | zero => cases h
  | succ turns ih =>
      by_cases hrest : rest = []
      · rw [hrest, slices_nil] at h
        cases h
      · rw [slices_cons hrest] at h
        obtain rfl | h := List.mem_cons.mp h
        · exact fun hnil => (List.take_eq_nil_iff.mp hnil).elim hchunk.ne' hrest
        · exact ih h

theorem forall₂_imp_of_mem {α γ : Type} {R S : α → γ → Prop} {l : List α} {m : List γ}
    (h : List.Forall₂ R l m) (hRS : ∀ a ∈ l, ∀ b ∈ m, R a b → S a b) : List.Forall₂ S l m := by
  rw [List.forall₂_iff_zip] at h ⊢
  exact ⟨h.1, fun hmem => hRS _ (List.of_mem_zip hmem).1 _ (List.of_mem_zip hmem).2 (h.2 hmem)⟩

theorem forall₂_exists_left {α γ : Type} {R : α → γ → Prop} {l : List α} {m : List γ}
    (h : List.Forall₂ R l m) : ∀ b ∈ m, ∃ a ∈ l, R a b := by
  induction h with
  | nil => exact fun b hb => absurd hb List.not_mem_nil
  | cons hab _ ih =>
      intro b hb
      obtain rfl | hb := List.mem_cons.mp hb
      · exact ⟨_, List.mem_cons_self, hab⟩
      · obtain ⟨a, ha, hr⟩ := ih b hb
        exact ⟨a, List.mem_cons_of_mem _ ha, hr⟩

theorem forall₂_exists_right {α γ : Type} {R : α → γ → Prop} {l : List α} {m : List γ}
    (h : List.Forall₂ R l m) : ∀ a ∈ l, ∃ b ∈ m, R a b :=
  forall₂_exists_left h.flip

theorem forall₂_and {α γ : Type} {R S : α → γ → Prop} {l : List α} {m : List γ}
    (hR : List.Forall₂ R l m) (hS : List.Forall₂ S l m) :
    List.Forall₂ (fun a b => R a b ∧ S a b) l m := by
  rw [List.forall₂_iff_zip] at hR hS ⊢
  exact ⟨hR.1, fun hmem => ⟨hR.2 hmem, hS.2 hmem⟩⟩

def Call.slices (c : Call) : List Bytes :=
  StorageFabric.slices (Fabric.chunkLength c.obj c.opts) c.content.length c.content

theorem Call.chunkLength_pos {c : Call} (hsize : c.content.length = c.obj.logicalSize.toNat)
    (hne : c.content ≠ []) : 0 < Fabric.chunkLength c.obj c.opts := by
  have hpos : 0 < c.content.length := List.length_pos_iff.mpr hne
  unfold Fabric.chunkLength
  split
  · omega
  · rename_i hchunk
    exact Nat.pos_of_ne_zero fun hzero => hchunk (UInt64.toNat_inj.mp hzero)

theorem Call.flatten_slices {c : Call} (hsize : c.content.length = c.obj.logicalSize.toNat) :
    c.slices.flatten = c.content := by
  by_cases hne : c.content = []
  · rw [Call.slices, hne, slices_nil]
    rfl
  · exact StorageFabric.flatten_slices (Call.chunkLength_pos hsize hne) (Nat.le_refl _)

namespace Fabric

variable {β : Type} [StorageBackend β]

/-! ### The loop rules -/

/-- The induction over the loop: `Q` relates the offset, the slices and the state it
starts from to its result and the state it ends with. -/
theorem chunkLoop_induction (backend : StorageBackendId) (dedupe : Bool)
    {Q : Nat → List Bytes → Fabric β → Result (List ChunkDescriptor) → Fabric β → Prop}
    (hdone : ∀ offset f, Q offset [] f (.ok []) f)
    (hstop : ∀ offset slice parts f s g,
      chunkStep backend dedupe offset slice f = (.error s, g) →
        Q offset (slice :: parts) f (.error s) g)
    (hturn : ∀ offset slice parts f c k rc g,
      chunkStep backend dedupe offset slice f = (.ok c, k) →
        Q (offset + slice.length) parts k rc g →
          Q offset (slice :: parts) f (rc.map (c :: ·)) g)
    (chunk turns offset : Nat) (rest : Bytes) (f : Fabric β) :
    Q offset (slices chunk turns rest) f
      (chunkLoop backend dedupe chunk turns offset rest f).1
      (chunkLoop backend dedupe chunk turns offset rest f).2 := by
  induction turns generalizing offset rest f with
  | zero => exact hdone _ _
  | succ turns ih =>
      by_cases hrest : rest = []
      · subst hrest
        rw [chunkLoop_nil, slices_nil]
        exact hdone _ _
      · rw [slices_cons hrest]
        rcases hstep : chunkStep backend dedupe offset (rest.take chunk) f with ⟨r, k⟩
        cases r with
        | error s =>
            rw [chunkLoop_error hrest hstep]
            exact hstop _ _ _ _ _ _ hstep
        | ok c =>
            rw [chunkLoop_ok hrest hstep]
            exact hturn _ _ _ _ _ _ _ _ hstep (ih _ _ _)

theorem chunkLoop_ok_induction {backend : StorageBackendId} {dedupe : Bool}
    {Q : Nat → List Bytes → Fabric β → List ChunkDescriptor → Fabric β → Prop}
    (hdone : ∀ offset f, Q offset [] f [] f)
    (hturn : ∀ offset slice parts f c k cs g,
      chunkStep backend dedupe offset slice f = (.ok c, k) →
        Q (offset + slice.length) parts k cs g → Q offset (slice :: parts) f (c :: cs) g)
    {chunk turns offset : Nat} {rest : Bytes} {f g : Fabric β} {cs : List ChunkDescriptor}
    (h : chunkLoop backend dedupe chunk turns offset rest f = (.ok cs, g)) :
    Q offset (slices chunk turns rest) f cs g := by
  have hloop := chunkLoop_induction backend dedupe (Q := fun offset parts f rc g =>
    ∀ cs, rc = .ok cs → Q offset parts f cs g) ?_ ?_ ?_ chunk turns offset rest f
  · rw [h] at hloop
    exact hloop cs rfl
  · rintro offset f _ ⟨⟩
    exact hdone offset f
  · rintro offset slice parts f s g - cs hcs
    cases hcs
  · intro offset slice parts f c k rc g hstep ih cs hcs
    cases rc with
    | error s => cases hcs
    | ok cs' =>
        cases hcs
        exact hturn _ _ _ _ _ _ _ _ hstep (ih cs' rfl)

/-- If every turn on a slice in `P` keeps `I`, keeps what `Q` says of earlier
chunks and establishes it of its own, then a loop that ends well ends in `I`
with `Q` of every chunk and its slice. -/
theorem chunkLoop_forall₂ {I : Fabric β → Prop} {Q : Fabric β → ChunkDescriptor → Bytes → Prop}
    {P : Bytes → Prop} {backend : StorageBackendId} {dedupe : Bool}
    (hstep : ∀ offset slice f c g, P slice → I f →
      chunkStep backend dedupe offset slice f = (.ok c, g) →
        I g ∧ Q g c slice ∧ ∀ c' s', Q f c' s' → Q g c' s')
    {chunk turns offset : Nat} {rest : Bytes} {f g : Fabric β} {cs : List ChunkDescriptor}
    (hP : ∀ slice ∈ slices chunk turns rest, P slice) (hf : I f)
    (h : chunkLoop backend dedupe chunk turns offset rest f = (.ok cs, g)) :
    I g ∧ List.Forall₂ (Q g) cs (slices chunk turns rest) ∧ ∀ c' s', Q f c' s' → Q g c' s' := by
  refine chunkLoop_ok_induction (Q := fun _ parts f cs g => (∀ slice ∈ parts, P slice) → I f →
    I g ∧ List.Forall₂ (Q g) cs parts ∧ ∀ c' s', Q f c' s' → Q g c' s') ?_ ?_ h hP hf
  · exact fun _ f _ hf => ⟨hf, .nil, fun _ _ hq => hq⟩
  · intro offset slice parts f c k cs g hturn ih hP hf
    obtain ⟨hk, hown, hkeep⟩ := hstep _ _ _ _ _ (hP _ List.mem_cons_self) hf hturn
    obtain ⟨hg, hall, hlater⟩ := ih (fun s hs => hP s (List.mem_cons_of_mem _ hs)) hk
    exact ⟨hg, .cons (hlater _ _ hown) hall, fun c' s' hq => hlater c' s' (hkeep c' s' hq)⟩

theorem chunkLoop_forall {I : Fabric β → Prop} {Q : Fabric β → ChunkDescriptor → Prop}
    {backend : StorageBackendId} {dedupe : Bool}
    (hstep : ∀ offset slice f c g, I f → chunkStep backend dedupe offset slice f = (.ok c, g) →
      I g ∧ Q g c ∧ ∀ c', Q f c' → Q g c')
    {chunk turns offset : Nat} {rest : Bytes} {f g : Fabric β} {cs : List ChunkDescriptor}
    (hf : I f) (h : chunkLoop backend dedupe chunk turns offset rest f = (.ok cs, g)) :
    ∀ c ∈ cs, Q g c := by
  refine (chunkLoop_ok_induction (Q := fun _ _ f cs g => I f →
    (∀ c ∈ cs, Q g c) ∧ ∀ c', Q f c' → Q g c') ?_ ?_ h hf).1
  · exact fun _ _ _ => ⟨by simp, fun _ hq => hq⟩
  · intro offset slice parts f c k cs g hturn ih hf
    obtain ⟨hk, hown, hkeep⟩ := hstep _ _ _ _ _ hf hturn
    obtain ⟨hall, hlater⟩ := ih hk
    exact ⟨List.forall_mem_cons.mpr ⟨hlater c hown, hall⟩, fun c' hq => hlater c' (hkeep c' hq)⟩

/-- The chunk of a turn describes its slice. -/
def Describes (c : ChunkDescriptor) (slice : Bytes) : Prop :=
  c.digest = ContentDigest.of slice ∧ c.physicalLength = UInt64.ofNat slice.length

theorem describes_chunkLoop {backend : StorageBackendId} {dedupe : Bool}
    {chunk turns offset : Nat} {rest : Bytes} {f g : Fabric β} {cs : List ChunkDescriptor}
    (h : chunkLoop backend dedupe chunk turns offset rest f = (.ok cs, g)) :
    List.Forall₂ Describes cs (slices chunk turns rest) := by
  have hloop := chunkLoop_forall₂ (I := fun _ => True) (Q := fun _ => Describes)
    (P := fun _ => True) ?_ (fun _ _ => trivial) trivial h
  · exact hloop.2.1
  · intro offset slice f c g _ _ hturn
    obtain ⟨b, -, -, rfl, -⟩ | ⟨n, -, rfl, -⟩ := chunkStep_ok hturn
    · exact ⟨trivial, ⟨rfl, rfl⟩, fun _ _ hq => hq⟩
    · exact ⟨trivial, ⟨rfl, rfl⟩, fun _ _ hq => hq⟩

/-! ### The chunks without their blobs -/

def forgetBlob (c : ChunkDescriptor) : ChunkDescriptor := { c with blob := default }

/-- The chunks of the slices from `offset` on, without their blobs. -/
def shapes : Nat → List Bytes → List ChunkDescriptor
  | _, [] => []
  | offset, slice :: rest => chunkAt offset slice default :: shapes (offset + slice.length) rest

theorem forgetBlob_chunkStep {backend : StorageBackendId} {dedupe : Bool} {offset : Nat}
    {slice : Bytes} {f g : Fabric β} {c : ChunkDescriptor}
    (h : chunkStep backend dedupe offset slice f = (.ok c, g)) :
    forgetBlob c = chunkAt offset slice default := by
  obtain ⟨b, -, -, rfl, -⟩ | ⟨n, -, rfl, -⟩ := chunkStep_ok h
  · rfl
  · rfl

theorem shapes_chunkLoop {backend : StorageBackendId} {dedupe : Bool} {chunk turns offset : Nat}
    {rest : Bytes} {f g : Fabric β} {cs : List ChunkDescriptor}
    (h : chunkLoop backend dedupe chunk turns offset rest f = (.ok cs, g)) :
    cs.map forgetBlob = shapes offset (slices chunk turns rest) := by
  refine chunkLoop_ok_induction (Q := fun offset parts _ cs _ =>
    cs.map forgetBlob = shapes offset parts) (fun _ _ => rfl) ?_ h
  intro offset slice parts f c k cs g hturn ih
  rw [shapes, List.map_cons, forgetBlob_chunkStep hturn, ih]

/-! ### The order of the chunks -/

omit [StorageBackend β] in
theorem shapes_ordered (offset : Nat) {parts : List Bytes} (hne : ∀ slice ∈ parts, slice ≠ [])
    (hbound : offset + parts.flatten.length < 2 ^ 64) :
    (∀ c ∈ shapes offset parts, offset ≤ c.offset.toNat ∧ c.id.value = c.offset.toNat + 1) ∧
      (shapes offset parts).Pairwise fun a b => a.offset < b.offset := by
  induction parts generalizing offset with
  | nil => exact ⟨fun c hc => absurd hc List.not_mem_nil, .nil⟩
  | cons slice parts ih =>
      have hpos : 0 < slice.length := List.length_pos_iff.mpr (hne slice List.mem_cons_self)
      rw [List.flatten_cons, List.length_append] at hbound
      obtain ⟨hlater, hsorted⟩ := ih (offset + slice.length)
        (fun s hs => hne s (List.mem_cons_of_mem _ hs)) (by omega)
      have hfirst : (chunkAt offset slice default).offset.toNat = offset := by
        show (UInt64.ofNat offset).toNat = offset
        rw [UInt64.toNat_ofNat']
        omega
      rw [shapes]
      constructor
      · intro c hc
        obtain rfl | hc := List.mem_cons.mp hc
        · rw [hfirst]
          exact ⟨Nat.le_refl _, rfl⟩
        · obtain ⟨hge, hid⟩ := hlater c hc
          exact ⟨by omega, hid⟩
      · refine .cons (fun c hc => ?_) hsorted
        have hge := (hlater c hc).1
        rw [UInt64.lt_iff_toNat_lt]
        omega

theorem Started.ordered {f start g : Fabric β} {c : Call} {res : Reservation}
    {ledger : ReservationLedger} {chunks : List ChunkDescriptor}
    (h : Started f c res ledger start (.ok chunks) g) :
    (∀ ch ∈ chunks, ch.id.value = ch.offset.toNat + 1) ∧
      chunks.Pairwise fun a b => a.offset < b.offset := by
  have hsize : c.content.length = c.obj.logicalSize.toNat := size_of_accepts h.accepted
  have hlt := c.obj.logicalSize.toNat_lt
  have hnonempty : ∀ slice ∈ c.slices, slice ≠ [] := by
    intro slice hslice
    by_cases hnil : c.content = []
    · rw [Call.slices, hnil, slices_nil] at hslice
      cases hslice
    · exact ne_nil_of_mem_slices (Call.chunkLength_pos hsize hnil) hslice
  have hshapes : chunks.map forgetBlob = shapes 0 c.slices := shapes_chunkLoop h.loop
  obtain ⟨hids, hsorted⟩ := shapes_ordered 0 hnonempty (by
    rw [Call.flatten_slices hsize]
    omega)
  rw [← hshapes] at hids hsorted
  rw [List.pairwise_map] at hsorted
  exact ⟨fun ch hch => (hids _ (List.mem_map_of_mem hch)).2, hsorted⟩

theorem Started.sorted {f start g : Fabric β} {c : Call} {res : Reservation}
    {ledger : ReservationLedger} {chunks : List ChunkDescriptor}
    (h : Started f c res ledger start (.ok chunks) g) : chunks.Pairwise Manifest.chunkLe :=
  h.ordered.2.imp fun hlt => .inl hlt

theorem chunks_manifestOf {f start g : Fabric β} {c : Call} {res : Reservation}
    {ledger : ReservationLedger} {chunks : List ChunkDescriptor}
    (h : Started f c res ledger start (.ok chunks) g) :
    (f.manifestOf c chunks).chunks = chunks :=
  h.sorted.insertionSort_eq

end Fabric

end StorageFabric
