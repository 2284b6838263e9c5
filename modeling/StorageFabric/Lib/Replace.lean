import StorageFabric.Lib.Disk
import StorageFabric.Lib.Runs

/-!
Replacing a file through a temporary one, call by call.

The temporary file is opened, written in pieces of any size, synced if the recipe
says so, and renamed into place; when a call is refused, what was written is
removed, and that may be refused too. The operating system's answers drive the
machine, so that stopping anywhere is running it on fewer answers.

`stage_run` is the rule: wherever the machine is, a file under a final name is
untouched until the rename, and is the new one afterwards.
-/

/-- What the operating system answers to a call. -/
inductive Answer (M : Type)
  /-- It is done; of a write, so many elements of what was left. -/
  | granted (n : Nat)
  | refused (message : M)
  deriving DecidableEq

/-- How a file is replaced, and the errors that are reported. -/
structure Recipe (N α M ε : Type) where
  temp : N
  target : N
  data : List α
  openError : ε
  writeError : ε
  /-- The temporary file is removed after a refused write. -/
  cleansWrite : Bool
  /-- The file is synced before the rename; the error when that is refused. -/
  syncError : Option (M → ε)
  /-- The error of a refused rename, by what the removal is answered. -/
  renameError : M → Option M → ε

namespace Recipe

variable {N α M ε : Type} [DecidableEq N]

/-- The call that comes next, or that all calls are made. -/
inductive Phase (α M ε : Type)
  | toOpen
  | toWrite (rest : List α)
  | toSync (error : M → ε)
  | toRename
  | toRemove (error : Option M → ε)
  | toReturn (r : Except ε Unit)
  | returned (r : Except ε Unit)

def Phase.reply : Phase α M ε → Option (Except ε Unit)
  | .returned r => some r
  | _ => none

def afterWrite (r : Recipe N α M ε) : Phase α M ε :=
  match r.syncError with
  | some error => .toSync error
  | none => .toRename

def turn (r : Recipe N α M ε) : Disk N α × Phase α M ε → Answer M → Disk N α × Phase α M ε
  | (d, .toOpen), .granted _ => (d.truncate r.temp, .toWrite r.data)
  | (d, .toOpen), .refused _ => (d, .toReturn (.error r.openError))
  | (d, .toWrite rest), .granted n =>
      (d.append r.temp (rest.take n),
        if rest.length ≤ n then r.afterWrite else .toWrite (rest.drop n))
  | (d, .toWrite _), .refused _ =>
      (d, if r.cleansWrite then .toRemove fun _ => r.writeError
        else .toReturn (.error r.writeError))
  | (d, .toSync _), .granted _ => (d.sync r.temp, .toRename)
  | (d, .toSync error), .refused message => (d, .toRemove fun _ => error message)
  | (d, .toRename), .granted _ => (d.rename r.temp r.target, .toReturn (.ok ()))
  | (d, .toRename), .refused message => (d, .toRemove (r.renameError message))
  | (d, .toRemove error), .granted _ => (d.unlink r.temp, .toReturn (.error (error none)))
  | (d, .toRemove error), .refused message => (d, .toReturn (.error (error (some message))))
  | (d, .toReturn res), _ => (d, .returned res)
  | (d, .returned res), _ => (d, .returned res)

/-- The file under the target has become the data, and nothing else has changed under
final names. -/
structure Replaced (final : Set N) (r : Recipe N α M ε) (d₀ d : Disk N α) : Prop where
  apart : d.Apart final
  becomes : Disk.Becomes final d₀ (Function.update d₀.contents r.target (some r.data)) d
  isSealed : r.syncError.isSome → d₀.Sealed final → d.Sealed final

/-- What holds in each phase, from the disk the machine was started on. -/
def Stage (final : Set N) (r : Recipe N α M ε) (d₀ : Disk N α) :
    Disk N α × Phase α M ε → Prop
  | (d, .toReturn (.ok _)) | (d, .returned (.ok _)) => Replaced final r d₀ d
  | (d, .toWrite rest) =>
      Disk.Scratch final d₀ d ∧ ∃ v, d.Holds r.temp v ∧ v.bytes ++ rest = r.data
  | (d, .toSync _) => Disk.Scratch final d₀ d ∧ ∃ v, d.Holds r.temp v ∧ v.bytes = r.data
  | (d, .toRename) =>
      Disk.Scratch final d₀ d ∧
        ∃ v, d.Holds r.temp v ∧ v.bytes = r.data ∧ (r.syncError.isSome → v.synced = true)
  | (d, _) => Disk.Scratch final d₀ d

section Rule

variable {final : Set N} {r : Recipe N α M ε} (htemp : r.temp ∉ final)
  (htarget : r.target ∈ final) {d₀ : Disk N α}

include htemp htarget

theorem stage_turn {s : Disk N α × Phase α M ε} (h : Stage final r d₀ s) (a : Answer M) :
    Stage final r d₀ (r.turn s a) := by
  obtain ⟨d, phase⟩ := s
  cases phase with
  | toOpen =>
      cases a with
      | granted n =>
          exact ⟨Disk.Scratch.trans h (h.apart.truncate htemp), _, Disk.holds_truncate _ _, rfl⟩
      | refused message => exact h
  | toWrite rest =>
      obtain ⟨hscratch, v, hv, hdata⟩ := h
      cases a with
      | granted n =>
          have hmore := hscratch.trans (hscratch.apart.append htemp (rest.take n))
          have hholds := hv.append (rest.take n)
          simp only [turn]
          by_cases hlast : rest.length ≤ n
          -- this was the last piece, so the data are there as a whole
          · have hall : v.bytes ++ rest.take n = r.data := by
              rw [List.take_of_length_le hlast, hdata]
            rw [if_pos hlast, afterWrite]
            cases hsync : r.syncError with
            | some error => exact ⟨hmore, _, hholds, hall⟩
            | none => exact ⟨hmore, _, hholds, hall, by simp [hsync]⟩
          · rw [if_neg hlast]
            refine ⟨hmore, _, hholds, ?_⟩
            rw [List.append_assoc, List.take_append_drop, hdata]
      | refused message =>
          simp only [turn]
          split <;> exact hscratch
  | toSync error =>
      obtain ⟨hscratch, v, hv, hdata⟩ := h
      cases a with
      | granted n =>
          exact ⟨hscratch.trans (hscratch.apart.sync htemp), _, hv.sync, hdata, fun _ => rfl⟩
      | refused message => exact hscratch
  | toRename =>
      obtain ⟨hscratch, v, hv, hdata, hsynced⟩ := h
      cases a with
      | granted n =>
          -- the one turn that the target can see
          obtain ⟨hapart, hbecomes, hsealed⟩ := hscratch.apart.rename htemp htarget hv
          refine ⟨hapart, hscratch.becomes.after (hbecomes.congr fun n hn => ?_),
            fun hsync hs => hsealed (hsynced hsync) (hscratch.isSealed hs)⟩
          by_cases hnt : n = r.target
          · rw [hnt, Function.update_self, Function.update_self, hdata]
          · rw [Function.update_of_ne hnt, Function.update_of_ne hnt]
            exact hscratch.becomes.now hn
      | refused message => exact hscratch
  | toRemove error =>
      cases a with
      | granted n => exact Disk.Scratch.trans h (h.apart.unlink_scratch htemp)
      | refused message => exact h
  | toReturn res =>
      cases res with
      | ok _ => exact h
      | error e => exact h
  | returned res =>
      cases res with
      | ok _ => exact h
      | error e => exact h

theorem stage_run (hapart : d₀.Apart final) (answers : List (Answer M)) :
    Stage final r d₀ (Runs.run r.turn (d₀, .toOpen) answers) := by
  have hstart : Stage final r d₀ (d₀, .toOpen) := Disk.Scratch.rfl hapart
  exact Runs.invariant (I := Stage final r d₀) (P := fun _ _ => True)
    (fun _ a h _ => stage_turn htemp htarget h a) hstart
    (Runs.along_of_forall (fun _ _ => trivial) _ _)

/-- Stopped anywhere, the machine has replaced the file or has not touched it. -/
theorem run_cases (hapart : d₀.Apart final) (answers : List (Answer M)) {d : Disk N α}
    {phase : Phase α M ε} (hrun : Runs.run r.turn (d₀, .toOpen) answers = (d, phase)) :
    match phase.reply with
    | some (.ok _) => Replaced final r d₀ d
    | some (.error _) => Disk.Scratch final d₀ d
    | none => Replaced final r d₀ d ∨ Disk.Scratch final d₀ d := by
  have h := hrun ▸ stage_run htemp htarget hapart answers
  cases phase with
  | toOpen => exact .inr h
  | toWrite rest => exact .inr h.1
  | toSync error => exact .inr h.1
  | toRename => exact .inr h.1
  | toRemove error => exact .inr h
  | toReturn res =>
      cases res with
      | ok _ => exact .inl h
      | error e => exact .inr h
  | returned res =>
      cases res with
      | ok _ => exact h
      | error e => exact h

end Rule

/-! ### The errors that are reported -/

section Errors

variable (Q : ε → Prop)

/-- All errors of the recipe satisfy `Q`. -/
structure Errs (r : Recipe N α M ε) : Prop where
  ofOpen : Q r.openError
  ofWrite : Q r.writeError
  ofSync : ∀ error ∈ r.syncError, ∀ message, Q (error message)
  ofRename : ∀ message removal, Q (r.renameError message removal)

def Phase.Errs : Phase α M ε → Prop
  | .toSync error => ∀ message, Q (error message)
  | .toRemove error => ∀ removal, Q (error removal)
  | .toReturn (.error e) | .returned (.error e) => Q e
  | _ => True

variable {Q} {r : Recipe N α M ε} (h : r.Errs Q)

include h

theorem errs_turn {s : Disk N α × Phase α M ε} (hs : s.2.Errs Q) (a : Answer M) :
    (r.turn s a).2.Errs Q := by
  obtain ⟨d, phase⟩ := s
  cases phase with
  | toOpen =>
      cases a with
      | granted n => trivial
      | refused message => exact h.ofOpen
  | toWrite rest =>
      cases a with
      | granted n =>
          simp only [turn]
          split
          · unfold afterWrite
            cases hsync : r.syncError with
            | some error => exact h.ofSync error hsync
            | none => trivial
          · trivial
      | refused message =>
          simp only [turn]
          split
          · exact fun _ => h.ofWrite
          · exact h.ofWrite
  | toSync error =>
      cases a with
      | granted n => trivial
      | refused message => exact fun _ => hs message
  | toRename =>
      cases a with
      | granted n => trivial
      | refused message => exact h.ofRename message
  | toRemove error =>
      cases a with
      | granted n => exact hs none
      | refused message => exact hs (some message)
  | toReturn res => cases res <;> exact hs
  | returned res => cases res <;> exact hs

theorem errs_run (d : Disk N α) (answers : List (Answer M)) {e : ε}
    (hreply : (Runs.run r.turn (d, .toOpen) answers).2.reply = some (.error e)) : Q e := by
  have hrun : (Runs.run r.turn (d, .toOpen) answers).2.Errs Q :=
    Runs.invariant (I := fun s : Disk N α × Phase α M ε => s.2.Errs Q) (P := fun _ _ => True)
      (fun _ a hs _ => errs_turn h hs a) trivial (Runs.along_of_forall (fun _ _ => trivial) _ _)
  generalize (Runs.run r.turn (d, .toOpen) answers).2 = phase at hreply hrun
  cases phase with
  | returned res =>
      obtain rfl := Option.some.inj hreply
      exact hrun
  | _ => cases hreply

end Errors

/-! ### Calls that are not refused -/

/-- The calls that are left when none is refused, at most. -/
def Phase.left : Phase α M ε → Nat
  | .toOpen => 0
  | .toWrite rest => rest.length + 4
  | .toSync _ => 3
  | .toRename => 2
  | .toRemove _ => 0
  | .toReturn _ => 1
  | .returned _ => 0

/-- Nothing has been refused so far. -/
def Phase.OnTrack : Phase α M ε → Prop
  | .toWrite _ | .toSync _ | .toRename | .toReturn (.ok _) | .returned (.ok _) => True
  | _ => False

theorem onTrack_turn (r : Recipe N α M ε) {d : Disk N α} {phase : Phase α M ε}
    (h : phase.OnTrack) {n : Nat} (hn : 0 < n) :
    (r.turn (d, phase) (.granted n)).2.OnTrack ∧
      (r.turn (d, phase) (.granted n)).2.left ≤ phase.left - 1 := by
  cases phase with
  | toOpen => exact h.elim
  | toWrite rest =>
      simp only [turn]
      by_cases hlast : rest.length ≤ n
      · rw [if_pos hlast, afterWrite]
        cases r.syncError <;> simp [Phase.OnTrack, Phase.left]
      · rw [if_neg hlast]
        refine ⟨trivial, ?_⟩
        simp only [Phase.left, List.length_drop]
        omega
  | toSync error => exact ⟨trivial, le_rfl⟩
  | toRename => exact ⟨trivial, le_rfl⟩
  | toRemove error => exact h.elim
  | toReturn res =>
      cases res with
      | ok _ => exact ⟨trivial, le_rfl⟩
      | error e => exact h.elim
  | returned res =>
      cases res with
      | ok _ => exact ⟨trivial, le_rfl⟩
      | error e => exact h.elim

theorem reply_of_onTrack {phase : Phase α M ε} (h : phase.OnTrack) (hleft : phase.left = 0) :
    phase.reply = some (.ok ()) := by
  cases phase with
  | returned res =>
      cases res with
      | ok _ => rfl
      | error e => exact h.elim
  | _ => simp_all [Phase.OnTrack, Phase.left]

theorem run_granted (r : Recipe N α M ε) (d : Disk N α) {counts : List Nat}
    (hpos : ∀ n ∈ counts, 0 < n) (hlength : r.data.length + 5 ≤ counts.length) :
    (Runs.run r.turn (d, .toOpen) (counts.map .granted)).2.reply = some (.ok ()) := by
  have hrun : ∀ (ns : List Nat) (d : Disk N α) (phase : Phase α M ε), (∀ n ∈ ns, 0 < n) →
      phase.OnTrack → phase.left ≤ ns.length →
      (Runs.run r.turn (d, phase) (ns.map .granted)).2.reply = some (.ok ()) := by
    intro ns
    induction ns with
    | nil => exact fun d phase _ h hleft => reply_of_onTrack h (Nat.le_zero.mp hleft)
    | cons n ns ih =>
        intro d phase hns h hleft
        obtain ⟨honTrack, hless⟩ := onTrack_turn r (d := d) h (hns n List.mem_cons_self)
        have hone : phase.left - 1 ≤ ns.length := by
          rw [List.length_cons] at hleft
          omega
        exact ih _ _ (fun m hm => hns m (List.mem_cons_of_mem n hm)) honTrack (hless.trans hone)
  cases counts with
  | nil => simp at hlength
  | cons n ns =>
      refine hrun ns _ (.toWrite r.data) (fun m hm => hpos m (List.mem_cons_of_mem n hm)) trivial ?_
      simp only [List.length_cons] at hlength
      simp only [Phase.left]
      omega

end Recipe
