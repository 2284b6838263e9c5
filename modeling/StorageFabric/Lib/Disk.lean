import Mathlib.Data.Set.Function
import StorageFabric.Lib.Table

/-!
A disk that forgets what was not made durable.

Names point to files. A program sees what was written last; the disk itself
holds the bytes of a file for certain only once the file is synced, and after a
power failure the names point where they did at some moment since the last one.

A discipline makes such a disk safe. Some names are `final`: only under the other ones
is a file opened for writing, and it comes to a final name by being renamed. `Apart` is
what that discipline keeps: no file that is seen under a final name, now or at a
moment the disk may go back to, can still be written. With every renamed file synced
before (`Sealed`), a power failure takes the final names back to one of those
moments and tears nothing.
-/

structure DiskNode (α : Type) where
  bytes : List α := []
  synced : Bool := true

structure Disk (N α : Type) where
  /-- The file each name points to. -/
  dir : Table N Nat := ∅
  nodes : Nat → DiskNode α := fun _ => {}
  fresh : Nat := 0
  /-- Where the names pointed before, back to the last power failure. -/
  past : List (Table N Nat) := []

namespace Disk

variable {N α : Type}

/-- All that the names may point to after a power failure. -/
def dirs (d : Disk N α) : List (Table N Nat) := d.dir :: d.past

@[simp] theorem dir_mem_dirs {d : Disk N α} : d.dir ∈ d.dirs := List.mem_cons_self

theorem mem_dirs {d : Disk N α} {p : Table N Nat} : p ∈ d.dirs ↔ p = d.dir ∨ p ∈ d.past :=
  List.mem_cons

variable [DecidableEq N]

def seen (d : Disk N α) (p : Table N Nat) (n : N) : Option (List α) :=
  (p.lookup n).map fun i => (d.nodes i).bytes

def contents (d : Disk N α) (n : N) : Option (List α) := d.seen d.dir n

/-- Open for writing: what was there is gone, and a file is made where none was. -/
def truncate (n : N) (d : Disk N α) : Disk N α :=
  match d.dir.lookup n with
  | some i => { d with nodes := Function.update d.nodes i ⟨[], false⟩ }
  | none =>
      { dir := d.dir.insert n d.fresh
        nodes := Function.update d.nodes d.fresh ⟨[], false⟩
        fresh := d.fresh + 1
        past := d.dirs }

def append (n : N) (bs : List α) (d : Disk N α) : Disk N α :=
  match d.dir.lookup n with
  | some i => { d with nodes := Function.update d.nodes i ⟨(d.nodes i).bytes ++ bs, false⟩ }
  | none => d

def sync (n : N) (d : Disk N α) : Disk N α :=
  match d.dir.lookup n with
  | some i => { d with nodes := Function.update d.nodes i ⟨(d.nodes i).bytes, true⟩ }
  | none => d

def rename (a b : N) (d : Disk N α) : Disk N α :=
  match d.dir.lookup a with
  | some i => { d with dir := (d.dir.erase a).insert b i, past := d.dirs }
  | none => d

def unlink (n : N) (d : Disk N α) : Disk N α :=
  { d with dir := d.dir.erase n, past := d.dirs }

/-- A power failure. The names go back by `back` changes, and what was not synced is
replaced by whatever the disk holds instead. -/
def lose (back : Nat) (junk : Nat → List α) (d : Disk N α) : Disk N α :=
  { d with
    dir := d.dirs.getD back d.dir
    nodes := fun i => if (d.nodes i).synced then d.nodes i else ⟨junk i, true⟩
    past := [] }

def Holds (d : Disk N α) (n : N) (v : DiskNode α) : Prop :=
  ∃ i, d.dir.lookup n = some i ∧ d.nodes i = v

/-! ### The discipline -/

section Discipline

variable (final : Set N)

/-- A file seen under a final name is under no other name, and under none that is
open for writing now. -/
structure Apart (d : Disk N α) : Prop where
  below : ∀ p ∈ d.dirs, ∀ n i, p.lookup n = some i → i < d.fresh
  single : ∀ p ∈ d.dirs, ∀ n m i, p.lookup n = some i → p.lookup m = some i → n = m
  apart : ∀ p ∈ d.dirs, ∀ n ∈ final, ∀ i, p.lookup n = some i →
    ∀ m ∉ final, d.dir.lookup m ≠ some i

/-- What is seen under final names is synced. -/
def Sealed (d : Disk N α) : Prop :=
  ∀ p ∈ d.dirs, ∀ n ∈ final, ∀ i, p.lookup n = some i → (d.nodes i).synced = true

/-- The final names come to show `f`, and a power failure takes them there or to where it
could take them before. -/
structure Becomes (d : Disk N α) (f : N → Option (List α)) (d' : Disk N α) : Prop where
  now : Set.EqOn d'.contents f final
  before : ∀ p ∈ d'.dirs, Set.EqOn (d'.seen p) f final ∨
    ∃ q ∈ d.dirs, Set.EqOn (d'.seen p) (d.seen q) final

variable {final}

theorem Becomes.rfl {d : Disk N α} : Becomes final d d.contents d :=
  ⟨Set.eqOn_refl _ _, fun p hp => .inr ⟨p, hp, Set.eqOn_refl _ _⟩⟩

theorem Becomes.after {d e d' : Disk N α} {f : N → Option (List α)}
    (h : Becomes final d d.contents e) (h' : Becomes final e f d') : Becomes final d f d' := by
  refine ⟨h'.now, fun p hp => ?_⟩
  obtain hf | ⟨q, hq, hpq⟩ := h'.before p hp
  · exact .inl hf
  obtain hd | ⟨r, hr, hqr⟩ := h.before q hq
  · exact .inr ⟨d.dir, dir_mem_dirs, hpq.trans hd⟩
  · exact .inr ⟨r, hr, hpq.trans hqr⟩

theorem Becomes.still {d e d' : Disk N α} {f : N → Option (List α)} (h : Becomes final d f e)
    (h' : Becomes final e e.contents d') : Becomes final d f d' := by
  refine ⟨h'.now.trans h.now, fun p hp => ?_⟩
  obtain he | ⟨q, hq, hpq⟩ := h'.before p hp
  · exact .inl (he.trans h.now)
  obtain hf | ⟨r, hr, hqr⟩ := h.before q hq
  · exact .inl (hpq.trans hf)
  · exact .inr ⟨r, hr, hpq.trans hqr⟩

theorem Becomes.congr {d d' : Disk N α} {f g : N → Option (List α)} (h : Becomes final d f d')
    (hfg : Set.EqOn f g final) : Becomes final d g d' :=
  ⟨h.now.trans hfg, fun p hp => (h.before p hp).imp_left (·.trans hfg)⟩

theorem apart_empty : Apart final ({} : Disk N α) := by
  constructor
  all_goals
    intro p hp n
    obtain rfl := List.mem_singleton.mp hp
    simp

theorem sealed_empty : Sealed final ({} : Disk N α) := fun _ _ _ _ _ _ => rfl

/-! ### Changes of the names -/

section Redirect

variable {d d' : Disk N α} (h : d.Apart final) (hpast : d'.past = d.dirs)

include h hpast

theorem Apart.redirect (hfresh : d.fresh ≤ d'.fresh)
    (hbelow : ∀ n i, d'.dir.lookup n = some i → i < d'.fresh)
    (hsingle : ∀ n m i, d'.dir.lookup n = some i → d'.dir.lookup m = some i → n = m)
    (hopen : ∀ m ∉ final, ∀ i, d'.dir.lookup m = some i → d.dir.lookup m = some i ∨ d.fresh ≤ i) :
    d'.Apart final := by
  have hdirs : ∀ p ∈ d'.dirs, p = d'.dir ∨ p ∈ d.dirs := fun p hp => hpast ▸ mem_dirs.mp hp
  constructor
  · intro p hp n i hi
    obtain rfl | hp := hdirs p hp
    · exact hbelow n i hi
    · exact (h.below p hp n i hi).trans_le hfresh
  · intro p hp n m i hn hm
    obtain rfl | hp := hdirs p hp
    · exact hsingle n m i hn hm
    · exact h.single p hp n m i hn hm
  · intro p hp n hn i hi m hm hmi
    obtain rfl | hp := hdirs p hp
    · exact hm (hsingle n m i hi hmi ▸ hn)
    obtain hold | hnew := hopen m hm i hmi
    · exact h.apart p hp n hn i hi m hm hold
    · exact absurd (h.below p hp n i hi) (Nat.not_lt.mpr hnew)

variable (hnodes : ∀ i < d.fresh, d'.nodes i = d.nodes i)

include hnodes

theorem Apart.becomes_redirect {f : N → Option (List α)} (hnow : Set.EqOn d'.contents f final) :
    Becomes final d f d' := by
  refine ⟨hnow, fun p hp => ?_⟩
  obtain rfl | hp := mem_dirs.mp hp
  · exact .inl hnow
  rw [hpast] at hp
  refine .inr ⟨p, hp, fun n _ => ?_⟩
  unfold seen
  cases hi : p.lookup n with
  | none => rfl
  | some i => simp [hnodes i (h.below p hp n i hi)]

theorem Apart.sealed_redirect
    (hdir : ∀ n ∈ final, ∀ i, d'.dir.lookup n = some i → (d'.nodes i).synced = true)
    (hs : d.Sealed final) : d'.Sealed final := by
  intro p hp n hn i hi
  obtain rfl | hp := mem_dirs.mp hp
  · exact hdir n hn i hi
  rw [hpast] at hp
  rw [hnodes i (h.below p hp n i hi)]
  exact hs p hp n hn i hi

end Redirect

/-! ### Writing under a name that is not final -/

/-- A step that the final names do not show. -/
structure Scratch (final : Set N) (d d' : Disk N α) : Prop where
  apart : d'.Apart final
  becomes : Becomes final d d.contents d'
  isSealed : d.Sealed final → d'.Sealed final

theorem Scratch.rfl {d : Disk N α} (h : d.Apart final) : Scratch final d d := ⟨h, .rfl, id⟩

theorem Scratch.trans {d e d' : Disk N α} (h : Scratch final d e) (h' : Scratch final e d') :
    Scratch final d d' :=
  ⟨h'.apart, h.becomes.still h'.becomes, h'.isSealed ∘ h.isSealed⟩

section Write

variable {d : Disk N α} (h : d.Apart final) {m : N} (hm : m ∉ final)

include h hm

/-- What is seen under final names does not change with a file that can be written. -/
theorem Apart.scratch_update {i : Nat} (hi : d.dir.lookup m = some i) (v : DiskNode α) :
    Scratch final d { d with nodes := Function.update d.nodes i v } := by
  have hne : ∀ p ∈ d.dirs, ∀ n ∈ final, ∀ j, p.lookup n = some j → j ≠ i :=
    fun p hp n hn j hj heq => h.apart p hp n hn j hj m hm (heq ▸ hi)
  have hseen : ∀ p ∈ d.dirs,
      Set.EqOn ({ d with nodes := Function.update d.nodes i v }.seen p) (d.seen p) final := by
    intro p hp n hn
    unfold seen
    cases hj : p.lookup n with
    | none => rfl
    | some j => simp [Function.update_of_ne (hne p hp n hn j hj)]
  refine ⟨⟨h.below, h.single, h.apart⟩, ⟨hseen _ dir_mem_dirs, fun p hp => .inr ⟨p, hp, hseen p hp⟩⟩,
    fun hs p hp n hn j hj => ?_⟩
  simpa [Function.update_of_ne (hne p hp n hn j hj)] using hs p hp n hn j hj

theorem Apart.scratch_make (v : DiskNode α) :
    Scratch final d
      { dir := d.dir.insert m d.fresh
        nodes := Function.update d.nodes d.fresh v
        fresh := d.fresh + 1
        past := d.dirs } := by
  have hlookup : ∀ n, (d.dir.insert m d.fresh).lookup n =
      if n = m then some d.fresh else d.dir.lookup n := fun n => AList.lookup_insert_eq m n _ _
  have hbelow : ∀ n i, d.dir.lookup n = some i → i < d.fresh := h.below _ dir_mem_dirs
  have hsame : ∀ i < d.fresh, Function.update d.nodes d.fresh v i = d.nodes i :=
    fun i hi => Function.update_of_ne hi.ne _ _
  have hother : ∀ n ∈ final, n ≠ m := fun n hn heq => hm (heq ▸ hn)
  refine ⟨h.redirect rfl (Nat.le_succ _) (fun n i hi => ?_) (fun n k i hn hk => ?_)
    (fun n _ i hi => ?_), h.becomes_redirect rfl hsame fun n hn => ?_,
    fun hs => h.sealed_redirect rfl hsame (fun n hn i hi => ?_) hs⟩
  · rw [hlookup] at hi
    grind
  · rw [hlookup] at hn hk
    have hold : d.dir.lookup n = some i → d.dir.lookup k = some i → n = k :=
      h.single _ dir_mem_dirs n k i
    grind
  · rw [hlookup] at hi
    grind
  · unfold contents seen
    rw [hlookup, if_neg (hother n hn)]
    cases hi : d.dir.lookup n with
    | none => rfl
    | some i => simp [hsame i (hbelow n i hi)]
  · rw [hlookup, if_neg (hother n hn)] at hi
    exact (congrArg DiskNode.synced (hsame i (hbelow n i hi))).trans
      (hs _ dir_mem_dirs n hn i hi)

theorem Apart.truncate : Scratch final d (d.truncate m) := by
  unfold Disk.truncate
  cases hi : d.dir.lookup m with
  | some i => exact h.scratch_update hm hi _
  | none => exact h.scratch_make hm _

theorem Apart.append (bs : List α) : Scratch final d (d.append m bs) := by
  unfold Disk.append
  cases hi : d.dir.lookup m with
  | some i => exact h.scratch_update hm hi _
  | none => exact .rfl h

theorem Apart.sync : Scratch final d (d.sync m) := by
  unfold Disk.sync
  cases hi : d.dir.lookup m with
  | some i => exact h.scratch_update hm hi _
  | none => exact .rfl h

end Write

theorem holds_update {d : Disk N α} {m : N} {i : Nat} (hi : d.dir.lookup m = some i)
    (v : DiskNode α) : Holds { d with nodes := Function.update d.nodes i v } m v :=
  ⟨i, hi, Function.update_self _ _ _⟩

theorem holds_truncate (m : N) (d : Disk N α) : (d.truncate m).Holds m ⟨[], false⟩ := by
  unfold Disk.truncate
  cases hi : d.dir.lookup m with
  | some i => exact holds_update hi _
  | none => exact ⟨d.fresh, AList.lookup_insert _, Function.update_self _ _ _⟩

theorem Holds.append {d : Disk N α} {m : N} {v : DiskNode α} (h : d.Holds m v) (bs : List α) :
    (d.append m bs).Holds m ⟨v.bytes ++ bs, false⟩ := by
  obtain ⟨i, hi, rfl⟩ := h
  simp only [Disk.append, hi]
  exact holds_update hi _

theorem Holds.sync {d : Disk N α} {m : N} {v : DiskNode α} (h : d.Holds m v) :
    (d.sync m).Holds m ⟨v.bytes, true⟩ := by
  obtain ⟨i, hi, rfl⟩ := h
  simp only [Disk.sync, hi]
  exact holds_update hi _

/-! ### Coming to a final name, and leaving one -/

section Names

variable {d : Disk N α} (h : d.Apart final)

include h

/-- A file that is renamed into place replaces what was under the final name. -/
theorem Apart.rename {a b : N} {v : DiskNode α} (ha : a ∉ final) (hb : b ∈ final)
    (hv : d.Holds a v) :
    (d.rename a b).Apart final ∧
      Becomes final d (Function.update d.contents b (some v.bytes)) (d.rename a b) ∧
      (v.synced = true → d.Sealed final → (d.rename a b).Sealed final) := by
  obtain ⟨i, hi, rfl⟩ := hv
  have hab : a ≠ b := fun heq => ha (heq ▸ hb)
  have hdir : (d.rename a b).dir = (d.dir.erase a).insert b i := by simp [Disk.rename, hi]
  have hpast : (d.rename a b).past = d.dirs := by simp [Disk.rename, hi]
  have hnodes : (d.rename a b).nodes = d.nodes := by simp [Disk.rename, hi]
  have hfresh : (d.rename a b).fresh = d.fresh := by simp [Disk.rename, hi]
  -- one inode changes its name; nothing else about the disk does
  have hlookup : ∀ n, (d.rename a b).dir.lookup n =
      if n = b then some i else if n = a then none else d.dir.lookup n := fun n => by
    rw [hdir, AList.lookup_insert_eq, AList.lookup_erase_eq]
  have hbelow : ∀ n j, d.dir.lookup n = some j → j < d.fresh := h.below _ dir_mem_dirs
  have hsingle : ∀ n m j, d.dir.lookup n = some j → d.dir.lookup m = some j → n = m :=
    h.single _ dir_mem_dirs
  have hsame : ∀ j < d.fresh, (d.rename a b).nodes j = d.nodes j := fun j _ => by rw [hnodes]
  refine ⟨h.redirect hpast hfresh.ge (fun n j hj => ?_) (fun n m j hn hm => ?_)
    (fun m hm j hj => ?_), h.becomes_redirect hpast hsame fun n hn => ?_,
    fun hsync hs => h.sealed_redirect hpast hsame (fun n hn j hj => ?_) hs⟩
  · rw [hlookup] at hj
    grind
  · rw [hlookup] at hn hm
    grind
  · rw [hlookup] at hj
    grind
  · unfold contents seen
    rw [hlookup, hnodes]
    by_cases hnb : n = b
    · simp [hnb]
    · have hna : n ≠ a := fun heq => ha (heq ▸ hn)
      simp [hnb, hna]
  · rw [hnodes]
    rw [hlookup] at hj
    by_cases hnb : n = b
    · rw [if_pos hnb] at hj
      exact Option.some.inj hj ▸ hsync
    · have hna : n ≠ a := fun heq => ha (heq ▸ hn)
      rw [if_neg hnb, if_neg hna] at hj
      exact hs _ dir_mem_dirs n hn j hj

theorem Apart.unlink (m : N) :
    (d.unlink m).Apart final ∧
      Becomes final d (Function.update d.contents m none) (d.unlink m) ∧
      (d.Sealed final → (d.unlink m).Sealed final) := by
  have hlookup : ∀ n, (d.unlink m).dir.lookup n = if n = m then none else d.dir.lookup n :=
    fun n => AList.lookup_erase_eq m n _
  have hold : ∀ n j, (d.unlink m).dir.lookup n = some j → d.dir.lookup n = some j := by
    intro n j hj
    rw [hlookup] at hj
    grind
  have hpast : (d.unlink m).past = d.dirs := rfl
  have hsame : ∀ j < d.fresh, (d.unlink m).nodes j = d.nodes j := fun _ _ => rfl
  refine ⟨h.redirect hpast le_rfl (fun n j hj => h.below _ dir_mem_dirs n j (hold n j hj))
    (fun n k j hn hk => h.single _ dir_mem_dirs n k j (hold n j hn) (hold k j hk))
    (fun n _ j hj => .inl (hold n j hj)), h.becomes_redirect hpast hsame fun n _ => ?_,
    fun hs => h.sealed_redirect hpast hsame
      (fun n hn j hj => hs _ dir_mem_dirs n hn j (hold n j hj)) hs⟩
  · unfold contents seen
    rw [hlookup]
    by_cases hnm : n = m
    · simp [hnm]
    · simp only [if_neg hnm, Function.update_of_ne hnm]
      rfl

theorem Apart.unlink_scratch {m : N} (hm : m ∉ final) : Scratch final d (d.unlink m) := by
  obtain ⟨hapart, hbecomes, hsealed⟩ := h.unlink m
  refine ⟨hapart, hbecomes.congr fun n hn => ?_, hsealed⟩
  have hne : n ≠ m := fun heq => hm (heq ▸ hn)
  exact Function.update_of_ne hne _ _

/-- A power failure takes the final names to where they were, with nothing torn. -/
theorem Apart.lose (hs : d.Sealed final) (back : Nat) (junk : Nat → List α) :
    (d.lose back junk).Apart final ∧ (d.lose back junk).Sealed final ∧
      ∃ q ∈ d.dirs, (d.lose back junk).dirs = [(d.lose back junk).dir] ∧
        Set.EqOn (d.lose back junk).contents (d.seen q) final := by
  have hmem : d.dirs.getD back d.dir ∈ d.dirs := by
    rw [List.getD_eq_getElem?_getD]
    cases hback : d.dirs[back]? with
    | none => exact dir_mem_dirs
    | some p => exact List.mem_of_getElem? hback
  have hdir : (d.lose back junk).dir ∈ d.dirs := hmem
  have hdirs : ∀ p ∈ (d.lose back junk).dirs, p = (d.lose back junk).dir :=
    fun p hp => List.mem_singleton.mp hp
  have hsynced : ∀ i, ((d.lose back junk).nodes i).synced = true := by
    intro i
    unfold Disk.lose
    dsimp only
    split <;> simp_all
  refine ⟨⟨fun p hp => ?_, fun p hp => ?_, fun p hp n hn i hi m hm hmi => ?_⟩,
    fun p hp n hn i hi => hsynced i, _, hdir, rfl, fun n hn => ?_⟩
  · rw [hdirs p hp]
    exact h.below _ hdir
  · rw [hdirs p hp]
    exact h.single _ hdir
  · rw [hdirs p hp] at hi
    exact hm (h.single _ hdir n m i hi hmi ▸ hn)
  · unfold contents seen
    cases hi : (d.lose back junk).dir.lookup n with
    | none => rfl
    | some i => simp [Disk.lose, hs _ hdir n hn i hi]

end Names

end Discipline

end Disk
