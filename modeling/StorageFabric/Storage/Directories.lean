import StorageFabric.Lib.FileTree
import StorageFabric.Storage.Drive
import StorageFabric.Runtime.State

/-!
The local backend on a tree of directories.

Every call makes the directories on the way to its key, also one that only asks. So a key
can turn out to be a directory, or to lie below a file, and the calls then fail; and a process
that ends within a put leaves its temporary file. Where no key in use lies below another one
and no name in them could be that of a temporary file, the calls answer what the table of
files says, but for the temporary files in the list of the keys.
-/

namespace StorageFabric

open PosixPath LocalBackend

namespace LocalBackend

def directory (key : Bytes) : List Name := (names key).dropLast

theorem directory_append_fileName (key : Bytes) : directory key ++ [fileName key] = names key := by
  rw [fileName, List.getLast?_eq_some_getLast (names_ne_nil key)]
  exact List.dropLast_append_getLast (names_ne_nil key)

theorem not_names_prefix_directory (key : Bytes) : ¬names key <+: directory key := by
  intro h
  have hlength := h.length_le
  rw [← directory_append_fileName, List.length_append] at hlength
  simp at hlength

theorem names_intercalate {p : List Name} (hp : p ≠ []) (h : ∀ n ∈ p, 47 ∉ n) :
    names ([47].intercalate p) = p :=
  List.splitOn_intercalate 47 h hp

def existsKey (b : LocalBackend) (key : Bytes) : Result Bool :=
  match resolveKey key with
  | .error s => .error s
  | .ok target => .ok (b.files.lookup target).isSome

def size (b : LocalBackend) (key : Bytes) : Result UInt64 :=
  match resolveKey key with
  | .error s => .error s
  | .ok target =>
      match b.files.lookup target with
      | none => Result.fail .notFound "file not found"
      | some data => .ok (UInt64.ofNat data.length)

end LocalBackend

/-- The directory of the objects, with all that is in it. -/
structure TreeBackend where
  tree : FileTree Name UInt8 := {}
  /-- `g_temp_counter`. -/
  counter : UInt64 := 0

/-- How far a put comes that is cut short. -/
inductive PutMoment
  | resolved
  /-- So many bytes are in the temporary file. -/
  | writing (count : Nat)
  | renamed

inductive TreeCall
  | put (data key : Bytes)
  | read (key : Bytes)
  | remove (key : Bytes)
  | existsKey (key : Bytes)
  | size (key : Bytes)
  | enumerate
  /-- A put in which the process ends. -/
  | cut (data key : Bytes) (moment : PutMoment)
  /-- The process ends between two calls. -/
  | kill

def TreeCall.key : TreeCall → Option Bytes
  | .put _ key | .read key | .remove key | .existsKey key | .size key | .cut _ key _ => some key
  | .enumerate | .kill => none

inductive TreeReply
  | put (r : Result UInt64)
  | read (r : Result Bytes)
  | remove (s : Status)
  | existsKey (r : Result Bool)
  | size (r : Result UInt64)
  | enumerate (r : Result (List Bytes))
  /-- The process has ended. -/
  | ended

namespace TreeBackend

def resolve (t : TreeBackend) (key : Bytes) : Result Bytes × TreeBackend :=
  match resolveKey key with
  | .error s => (.error s, t)
  | .ok target => (.ok target, { t with tree := t.tree.makeDirectories [] (directory target) })

def put (t : TreeBackend) (data key : Bytes) : Result UInt64 × TreeBackend :=
  match t.resolve key with
  | (.error s, t) => (.error s, t)
  | (.ok target, t) =>
      let temp := tempName (fileName target) t.counter
      let counter := t.counter + 1
      match t.tree.write (directory target) temp data with
      | none => (Result.fail .ioError "cannot create temp file", { t with counter })
      | some written =>
          match written.rename (directory target) temp (fileName target) with
          | none =>
              (Result.fail .ioError "rename failed: Is a directory",
                ⟨(written.remove (directory target ++ [temp])).getD written, counter⟩)
          | some tree => (.ok (UInt64.ofNat data.length), ⟨tree, counter⟩)

/-- What a put leaves that comes as far as `moment`. -/
def cut (t : TreeBackend) (data key : Bytes) (moment : PutMoment) : TreeBackend :=
  match t.resolve key with
  | (.error _, t) => { t with counter := 0 }
  | (.ok target, resolved) =>
      match moment with
      | .resolved => { resolved with counter := 0 }
      | .writing count =>
          let temp := tempName (fileName target) t.counter
          { tree := (resolved.tree.write (directory target) temp (data.take count)).getD resolved.tree }
      | .renamed => { (t.put data key).2 with counter := 0 }

/-- A call that only asks, with what it answers for a key that is accepted. -/
def ask {α : Type} (t : TreeBackend) (key : Bytes)
    (answer : FileTree Name UInt8 → Bytes → Result α) : Result α × TreeBackend :=
  match t.resolve key with
  | (.error s, t) => (.error s, t)
  | (.ok target, t) => (answer t.tree target, t)

/-- What the system says of a path at which there is no file. -/
def noFileMessage (tree : FileTree Name UInt8) (target : Bytes) : String :=
  if tree.node (names target) = some .directory then "Is a directory"
  else if tree.node (directory target) = some .directory then "No such file or directory"
  else "Not a directory"

def readFile (tree : FileTree Name UInt8) (target : Bytes) : Result Bytes :=
  match tree.content (names target) with
  | none => Result.failure .notFound (ascii "file not found: " ++ ascii (noFileMessage tree target))
  | some data =>
      if 64 * 1024 * 1024 * 1024 < data.length then
        Result.fail .overflow "file exceeds bounded read"
      else .ok data

def read (t : TreeBackend) (key : Bytes) : Result Bytes × TreeBackend := t.ask key readFile

def remove (t : TreeBackend) (key : Bytes) : Status × TreeBackend :=
  match t.resolve key with
  | (.error s, t) => (s, t)
  | (.ok target, t) =>
      if t.tree.node (directory target) ≠ some .directory then
        (.of .ioError "remove failed: Not a directory", t)
      else
        match t.tree.remove (names target) with
        | none => (.of .ioError "remove failed: Directory not empty", t)
        | some tree => (.okStatus, { t with tree })

/-- A directory exists as well. -/
def existsKey (t : TreeBackend) (key : Bytes) : Result Bool × TreeBackend :=
  t.ask key fun tree target => .ok (tree.node (names target)).isSome

def size (t : TreeBackend) (key : Bytes) : Result UInt64 × TreeBackend :=
  t.ask key fun tree target =>
    match tree.content (names target) with
    | none => Result.fail .notFound "file not found"
    | some data => .ok (UInt64.ofNat data.length)

def enumerate (t : TreeBackend) : Result (List Bytes) :=
  .ok (t.tree.files.map fun p => [47].intercalate p)

def step (t : TreeBackend) : TreeCall → TreeBackend
  | .put data key => (t.put data key).2
  | .read key => (t.read key).2
  | .remove key => (t.remove key).2
  | .existsKey key => (t.existsKey key).2
  | .size key => (t.size key).2
  | .enumerate => t
  | .cut data key moment => t.cut data key moment
  | .kill => { t with counter := 0 }

def reply (t : TreeBackend) : TreeCall → TreeReply
  | .put data key => .put (t.put data key).1
  | .read key => .read (t.read key).1
  | .remove key => .remove (t.remove key).1
  | .existsKey key => .existsKey (t.existsKey key).1
  | .size key => .size (t.size key).1
  | .enumerate => .enumerate t.enumerate
  | .cut _ _ _ => .ended
  | .kill => .ended

end TreeBackend

/-! ### What it comes to -/

/-- The calls on a table of files. The order in which the keys are listed is left open, and
names of temporary files can be among them; a put that is cut short does nothing or all. -/
inductive TableStep : LocalBackend → TreeCall → TreeReply → LocalBackend → Prop
  | put {b b' : LocalBackend} {data key : Bytes} {r : Result UInt64} (h : b.put data key = (r, b')) :
      TableStep b (.put data key) (.put r) b'
  | read {b : LocalBackend} {key : Bytes} : TableStep b (.read key) (.read (b.read key)) b
  | remove {b b' : LocalBackend} {key : Bytes} {s : Status} (h : b.remove key = (s, b')) :
      TableStep b (.remove key) (.remove s) b'
  | existsKey {b : LocalBackend} {key : Bytes} :
      TableStep b (.existsKey key) (.existsKey (b.existsKey key)) b
  | size {b : LocalBackend} {key : Bytes} : TableStep b (.size key) (.size (b.size key)) b
  | enumerate {b : LocalBackend} {keys strays : List Bytes} (hnodup : keys.Nodup)
      (h : keys.Perm (b.files.keys ++ strays)) (hstrays : ∀ key ∈ strays, TempKey key) :
      TableStep b .enumerate (.enumerate (.ok keys)) b
  | cutNothing {b : LocalBackend} {data key : Bytes} {moment : PutMoment} :
      TableStep b (.cut data key moment) .ended b
  | cutAll {b b' : LocalBackend} {data key : Bytes} {moment : PutMoment} {r : Result UInt64}
      (h : b.put data key = (r, b')) : TableStep b (.cut data key moment) .ended b'
  | kill {b : LocalBackend} : TableStep b .kill .ended b

/-- Keys of which none lies below another one, and none goes through a name that a
temporary file could have. -/
structure Spread (K : Set Bytes) : Prop where
  apart : ∀ key ∈ K, ∀ key' ∈ K, names key <+: names key' → key = key'
  plain : ∀ key ∈ K, ∀ file counter, tempName file counter ∉ names key

/-- A path that a temporary file has beside a key. -/
def Stray (K : Set Bytes) (p : List Name) : Prop :=
  ∃ key ∈ K, ∃ counter, p = directory key ++ [tempName (fileName key) counter]

theorem Spread.not_stray {K : Set Bytes} (hK : Spread K) {key : Bytes} (hkey : key ∈ K)
    {p : List Name} (hp : p <+: names key) : ¬Stray K p := by
  rintro ⟨key', -, counter, rfl⟩
  exact hK.plain key hkey (fileName key') counter (hp.subset (by simp))

/-- The tree is that of the table: the files are those of the table and temporary ones, and
the directories are on the way to keys. -/
structure Plants (K : Set Bytes) (t : FileTree Name UInt8) (b : LocalBackend) : Prop where
  content : ∀ key ∈ K, t.content (names key) = b.files.lookup key
  known : ∀ key ∈ b.files.keys, key ∈ K
  files : ∀ p bs, t.content p = some bs → (∃ key ∈ K, p = names key) ∨ Stray K p
  directories : ∀ p, t.node p = some .directory →
    p = [] ∨ ∃ key ∈ K, p <+: names key ∧ p ≠ names key
  granted : b.writeFault = none ∧ b.readFault = none ∧ b.removeFault = none

namespace Plants

variable {K : Set Bytes} (hK : Spread K) {t : FileTree Name UInt8} {b : LocalBackend}

include hK

theorem still {t' : FileTree Name UInt8} (h : Plants K t b)
    (hcontent : ∀ p, t'.content p = t.content p ∨ Stray K p)
    (hdirectories : ∀ p, t'.node p = some .directory → t.node p = some .directory ∨
      ∃ key ∈ K, p <+: names key ∧ p ≠ names key) : Plants K t' b where
  content key hkey :=
    ((hcontent _).resolve_right (hK.not_stray hkey List.prefix_rfl)).trans (h.content key hkey)
  known := h.known
  files p bs hp := by
    obtain hsame | hstray := hcontent p
    · exact h.files p bs (hsame.symm.trans hp)
    · exact .inr hstray
  directories p hp := by
    obtain hold | hnew := hdirectories p hp
    · exact h.directories p hold
    · exact .inr hnew
  granted := h.granted

theorem update {t' : FileTree Name UInt8} (h : Plants K t b) {key : Bytes} (hkey : key ∈ K)
    {v : Option Bytes} (hname : t'.content (names key) = v)
    (hother : ∀ p, p ≠ names key → t'.content p = t.content p ∨ Stray K p)
    (hdirectories : ∀ p, t'.node p = some .directory → t.node p = some .directory)
    {files : Table Bytes Bytes}
    (hfiles : ∀ k, files.lookup k = if k = key then v else b.files.lookup k) :
    Plants K t' { b with files } := by
  refine ⟨fun key' hkey' => ?_, fun key' hmem => ?_, fun p bs hp => ?_,
    fun p hp => h.directories p (hdirectories p hp), h.granted⟩
  · show _ = files.lookup key'
    rw [hfiles]
    by_cases heq : key' = key
    · rw [if_pos heq, heq, hname]
    · have hne : names key' ≠ names key := fun hsame =>
        heq (hK.apart key' hkey' key hkey (hsame ▸ List.prefix_rfl))
      rw [if_neg heq, ← h.content key' hkey']
      exact (hother _ hne).resolve_right (hK.not_stray hkey' List.prefix_rfl)
  · by_cases heq : key' = key
    · exact heq ▸ hkey
    · have hsome : (files.lookup key').isSome = true :=
        AList.lookup_isSome.mpr (AList.mem_keys.mpr hmem)
      rw [hfiles, if_neg heq] at hsome
      exact h.known key' (AList.mem_keys.mp (AList.lookup_isSome.mp hsome))
  · by_cases heq : p = names key
    · exact .inl ⟨key, hkey, heq⟩
    · obtain hsame | hstray := hother p heq
      · exact h.files p bs (hsame.symm.trans hp)
      · exact .inr hstray

theorem node_ne_directory (h : Plants K t b) {key : Bytes} (hkey : key ∈ K) :
    t.node (names key) ≠ some .directory := by
  intro hnode
  obtain hnil | ⟨key', hkey', hbelow, hne⟩ := h.directories _ hnode
  · exact names_ne_nil key hnil
  · exact hne (by rw [hK.apart key hkey key' hkey' hbelow])

theorem content_directory (h : Plants K t b) {key : Bytes} (hkey : key ∈ K) {p : List Name}
    (hp : p <+: directory key) : t.content p = none := by
  have hbelow : p <+: names key := by
    rw [← directory_append_fileName key]
    exact hp.trans (List.prefix_append _ _)
  cases hcontent : t.content p with
  | none => rfl
  | some bs =>
      obtain ⟨key', hkey', rfl⟩ | hstray := h.files p bs hcontent
      · obtain rfl := hK.apart key' hkey' key hkey hbelow
        exact absurd hp (not_names_prefix_directory key')
      · exact absurd hstray (hK.not_stray hkey hbelow)

theorem makeDirectories (h : Plants K t b) {key : Bytes} (hkey : key ∈ K) :
    Plants K (t.makeDirectories [] (directory key)) b ∧
      (t.makeDirectories [] (directory key)).node (directory key) = some .directory := by
  obtain ⟨hmade, hsame⟩ := FileTree.makeDirectories_spec t.node_nil
    (fun p hp => h.content_directory hK hkey hp)
  refine ⟨h.still hK (fun p => .inl ?_) fun p hp => ?_, hmade _ List.prefix_rfl⟩
  · by_cases hway : p <+: directory key
    · rw [h.content_directory hK hkey hway, FileTree.content]
      have hnode : (t.makeDirectories [] (directory key)).node p = some .directory := hmade p hway
      rw [hnode]
    · exact FileTree.content_congr (hsame p fun q hq heq => hway (heq ▸ hq))
  · by_cases hway : p <+: directory key
    · refine .inr ⟨key, hkey, ?_, fun heq => not_names_prefix_directory key (heq ▸ hway)⟩
      rw [← directory_append_fileName key]
      exact hway.trans (List.prefix_append _ _)
    · exact .inl ((hsame p fun q hq heq => hway (heq ▸ hq)) ▸ hp)

theorem node_temp (h : Plants K t b) (p : List Name) (file : Name) (counter : UInt64) :
    t.node (p ++ [tempName file counter]) ≠ some .directory := by
  intro hnode
  obtain hnil | ⟨key, hkey, hbelow, -⟩ := h.directories _ hnode
  · simp at hnil
  · exact hK.plain key hkey file counter (hbelow.subset (by simp))

/-- A temporary file can be made beside a key, with nothing else changed, and takes the place
of the file under the key. -/
theorem replace (h : Plants K t b) {key : Bytes} (hkey : key ∈ K)
    (hdirectory : t.node (directory key) = some .directory) (counter : UInt64) (data : Bytes) :
    ∃ written tree, t.write (directory key) (tempName (fileName key) counter) data = some written ∧
      written.rename (directory key) (tempName (fileName key) counter) (fileName key) = some tree ∧
      Plants K written b ∧ Plants K tree { b with files := b.files.insert key data } := by
  have hstray : Stray K (directory key ++ [tempName (fileName key) counter]) :=
    ⟨key, hkey, counter, rfl⟩
  have htemp := h.node_temp hK (directory key) (fileName key) counter
  generalize tempName (fileName key) counter = temp at *
  obtain ⟨written, hwrite, hwritten⟩ := FileTree.write_spec hdirectory htemp data
  have hplants : Plants K written b := by
    refine h.still hK (fun p => ?_) fun p hp => .inl ?_
    · by_cases hp : p = directory key ++ [temp]
      · exact .inr (hp ▸ hstray)
      · exact .inl (FileTree.content_congr (by rw [hwritten, if_neg hp]))
    · rw [hwritten] at hp
      split at hp
      · cases hp
      · exact hp
  have htarget := hplants.node_ne_directory hK hkey
  rw [← directory_append_fileName] at htarget
  obtain ⟨tree, hrename, hnode⟩ := FileTree.rename_spec (a := temp)
    (by rw [hwritten, if_pos rfl]) htarget
  rw [directory_append_fileName] at hnode
  refine ⟨written, tree, hwrite, hrename, hplants, ?_⟩
  refine hplants.update hK hkey (v := some data) ?_ (fun p hp => ?_) (fun p hp => ?_)
    fun k => AList.lookup_insert_eq key k data b.files
  · rw [FileTree.content_eq_some, hnode, if_pos rfl]
  · by_cases hpt : p = directory key ++ [temp]
    · exact .inr (hpt ▸ hstray)
    · exact .inl (FileTree.content_congr (by rw [hnode, if_neg hp, if_neg hpt]))
  · rw [hnode] at hp
    split at hp
    · cases hp
    · split at hp
      · cases hp
      · exact hp

end Plants

/-! ### One call -/

theorem TreeBackend.resolve_of_error {key : Bytes} {e : Status} (h : resolveKey key = .error e)
    (t : TreeBackend) : t.resolve key = (.error e, t) := by
  simp [TreeBackend.resolve, h]

theorem TreeBackend.resolve_of_ok {key target : Bytes} (h : resolveKey key = .ok target)
    (t : TreeBackend) : t.resolve key =
      (.ok target, { t with tree := t.tree.makeDirectories [] (directory target) }) := by
  simp [TreeBackend.resolve, h]

/-- The keys of the call that are accepted are among those in use. -/
def TreeCall.Within (K : Set Bytes) (c : TreeCall) : Prop :=
  ∀ key, c.key = some key → GovernedKey key → key ∈ K

theorem Plants.names_listed {K : Set Bytes} {t : FileTree Name UInt8} {b : LocalBackend}
    (h : Plants K t b) {p : List Name} (hp : p ∈ t.files) : names ([47].intercalate p) = p := by
  obtain ⟨bs, hbs⟩ := Option.isSome_iff_exists.mp (FileTree.mem_files.mp hp)
  obtain ⟨key, -, rfl⟩ | ⟨key, -, counter, rfl⟩ := h.files p bs hbs
  · exact names_intercalate (names_ne_nil key) fun n hn => noSlash_of_mem_names hn
  · refine names_intercalate (by simp) fun n hn => ?_
    obtain hn | hn := List.mem_append.mp hn
    · exact noSlash_of_mem_names ((List.dropLast_sublist _).subset hn)
    · rw [List.mem_singleton.mp hn]
      exact noSlash_tempName (noSlash_fileName key) counter

theorem enumerate_plants {K : Set Bytes} {t : TreeBackend} {b : LocalBackend}
    (h : Plants K t.tree b) :
    ∃ keys strays, t.enumerate = .ok keys ∧ keys.Nodup ∧ keys.Perm (b.files.keys ++ strays) ∧
      ∀ key ∈ strays, TempKey key := by
  let keys := t.tree.files.map fun p => [47].intercalate p
  have hnodup : keys.Nodup := (FileTree.nodup_files t.tree).map_on fun p hp q hq heq => by
    rw [← h.names_listed hp, heq, h.names_listed hq]
  have hlisted : ∀ key ∈ b.files.keys, key ∈ keys := by
    intro key hkey
    have hmem : names key ∈ t.tree.files := by
      rw [FileTree.mem_files, h.content key (h.known key hkey)]
      exact AList.lookup_isSome.mpr (AList.mem_keys.mpr hkey)
    exact List.mem_map.mpr ⟨names key, hmem, List.intercalate_splitOn 47⟩
  refine ⟨keys, keys.filter fun key => !b.files.keys.contains key, rfl, hnodup, ?_, ?_⟩
  · have hold : (keys.filter fun key => b.files.keys.contains key).Perm b.files.keys := by
      refine (List.perm_ext_iff_of_nodup (hnodup.filter _) b.files.nodupKeys).mpr fun key => ?_
      rw [List.mem_filter, List.contains_iff_mem]
      exact ⟨fun hkey => hkey.2, fun hkey => ⟨hlisted key hkey, hkey⟩⟩
    exact (List.filter_append_perm _ keys).symm.trans (hold.append_right _)
  · intro key hkey
    obtain ⟨hkey, hnot⟩ := List.mem_filter.mp hkey
    obtain ⟨p, hp, rfl⟩ := List.mem_map.mp hkey
    have hnames := h.names_listed hp
    obtain ⟨bs, hbs⟩ := Option.isSome_iff_exists.mp (FileTree.mem_files.mp hp)
    obtain ⟨key, hknown, rfl⟩ | ⟨key, -, counter, rfl⟩ := h.files p bs hbs
    · have hback : [47].intercalate (names key) = key := List.intercalate_splitOn 47
      have hmem : key ∈ b.files.keys := AList.mem_keys.mp (AList.lookup_isSome.mp (by
        rw [← h.content key hknown, hbs]
        rfl))
      rw [hback, List.contains_iff_mem.mpr hmem] at hnot
      cases hnot
    · refine ⟨fileName key, counter, ?_⟩
      rw [fileName, hnames]
      simp

section Calls

variable {K : Set Bytes} (hK : Spread K) {t : TreeBackend} {b : LocalBackend}
  (h : Plants K t.tree b)

include hK h

theorem put_plants {data key : Bytes} (hc : (TreeCall.put data key).Within K) :
    ∃ b', b.put data key = ((t.put data key).1, b') ∧ Plants K (t.put data key).2.tree b' := by
  cases hkey : resolveKey key with
  | error e =>
      simp only [TreeBackend.put, t.resolve_of_error hkey, LocalBackend.put, hkey]
      exact ⟨b, rfl, h⟩
  | ok target =>
      have hmem : key ∈ K := hc key rfl (governed_of_resolveKey hkey)
      obtain rfl := eq_of_resolveKey hkey
      obtain ⟨hplants, hdirectory⟩ := h.makeDirectories hK hmem
      obtain ⟨written, tree, hwrite, hrename, -, hdone⟩ :=
        hplants.replace hK hmem hdirectory t.counter data
      have hput : b.put data target = (.ok (UInt64.ofNat data.length),
          { b with files := b.files.insert target data }) := by
        simp [LocalBackend.put, hkey, h.granted.1]
      rw [hput]
      simp only [TreeBackend.put, t.resolve_of_ok hkey, hwrite, hrename]
      exact ⟨_, rfl, hdone⟩

/-- A put that is cut short has done nothing, or all that it was to do. -/
theorem cut_plants {data key : Bytes} {moment : PutMoment}
    (hc : (TreeCall.cut data key moment).Within K) :
    ∃ b', TableStep b (.cut data key moment) .ended b' ∧ Plants K (t.cut data key moment).tree b' := by
  cases hkey : resolveKey key with
  | error e =>
      simp only [TreeBackend.cut, t.resolve_of_error hkey]
      exact ⟨b, .cutNothing, h⟩
  | ok target =>
      have hmem : key ∈ K := hc key rfl (governed_of_resolveKey hkey)
      obtain rfl := eq_of_resolveKey hkey
      obtain ⟨hplants, hdirectory⟩ := h.makeDirectories hK hmem
      simp only [TreeBackend.cut, t.resolve_of_ok hkey]
      cases moment with
      | resolved => exact ⟨b, .cutNothing, hplants⟩
      | writing count =>
          obtain ⟨written, -, hwrite, -, hwritten, -⟩ :=
            hplants.replace hK hmem hdirectory t.counter (data.take count)
          refine ⟨b, .cutNothing, ?_⟩
          dsimp only
          rw [hwrite]
          exact hwritten
      | renamed =>
          have hin : (TreeCall.put data target).Within K := hc
          obtain ⟨b', hput, hdone⟩ := put_plants hK h hin
          exact ⟨b', .cutAll hput, hdone⟩

theorem remove_plants {key : Bytes} (hc : (TreeCall.remove key).Within K) :
    ∃ b', b.remove key = ((t.remove key).1, b') ∧ Plants K (t.remove key).2.tree b' := by
  cases hkey : resolveKey key with
  | error e =>
      simp only [TreeBackend.remove, t.resolve_of_error hkey, LocalBackend.remove, hkey]
      exact ⟨b, rfl, h⟩
  | ok target =>
      have hmem : key ∈ K := hc key rfl (governed_of_resolveKey hkey)
      obtain rfl := eq_of_resolveKey hkey
      obtain ⟨hplants, hdirectory⟩ := h.makeDirectories hK hmem
      obtain ⟨tree, hremove, hnode⟩ := FileTree.remove_spec (hplants.node_ne_directory hK hmem)
      have hflat : b.remove target = (.okStatus, { b with files := b.files.erase target }) := by
        simp [LocalBackend.remove, hkey, h.granted.2.2]
      rw [hflat]
      simp only [TreeBackend.remove, t.resolve_of_ok hkey, hdirectory, ne_eq, not_true_eq_false,
        if_false, hremove]
      refine ⟨_, rfl, hplants.update hK hmem (v := none) ?_ (fun p hp => .inl ?_) (fun p hp => ?_)
        fun k => AList.lookup_erase_eq target k b.files⟩
      · rw [FileTree.content, hnode, if_pos rfl]
      · exact FileTree.content_congr (by rw [hnode, if_neg hp])
      · rw [hnode] at hp
        split at hp
        · cases hp
        · exact hp

/-- A call that only asks makes the directories, and answers what the table does. -/
theorem ask_plants {α : Type} {key : Bytes} (hc : GovernedKey key → key ∈ K)
    {answer : FileTree Name UInt8 → Bytes → Result α} {flat : Result α}
    (hrefused : ∀ e, resolveKey key = .error e → flat = .error e)
    (hanswer : ∀ tree : FileTree Name UInt8, resolveKey key = .ok key →
      tree.content (names key) = b.files.lookup key → tree.node (names key) ≠ some .directory →
        tree.node (directory key) = some .directory → answer tree key = flat) :
    (t.ask key answer).1 = flat ∧ Plants K (t.ask key answer).2.tree b := by
  cases hkey : resolveKey key with
  | error e =>
      simp only [TreeBackend.ask, t.resolve_of_error hkey]
      exact ⟨(hrefused e hkey).symm, h⟩
  | ok target =>
      have hmem := hc (governed_of_resolveKey hkey)
      obtain rfl := eq_of_resolveKey hkey
      obtain ⟨hplants, hdirectory⟩ := h.makeDirectories hK hmem
      simp only [TreeBackend.ask, t.resolve_of_ok hkey]
      exact ⟨hanswer _ hkey (hplants.content target hmem) (hplants.node_ne_directory hK hmem)
        hdirectory, hplants⟩

theorem read_plants {key : Bytes} (hc : GovernedKey key → key ∈ K) :
    (t.read key).1 = b.read key ∧ Plants K (t.read key).2.tree b := by
  refine ask_plants hK h hc (fun e he => ?_) fun tree hkey hcontent hnode hdirectory => ?_
  · rw [LocalBackend.read, he]
  · have hmessage : TreeBackend.noFileMessage tree key = "No such file or directory" := by
      rw [TreeBackend.noFileMessage, if_neg hnode, if_pos hdirectory]
    simp only [TreeBackend.readFile, LocalBackend.read, hkey, hcontent, h.granted.2.1, hmessage]
    cases b.files.lookup key <;> rfl

theorem existsKey_plants {key : Bytes} (hc : GovernedKey key → key ∈ K) :
    (t.existsKey key).1 = b.existsKey key ∧ Plants K (t.existsKey key).2.tree b := by
  refine ask_plants hK h hc (fun e he => ?_) fun tree hkey hcontent hnode _ => ?_
  · rw [LocalBackend.existsKey, he]
  · simp only [LocalBackend.existsKey, hkey, ← hcontent]
    cases hat : tree.node (names key) with
    | none => simp [FileTree.content, hat]
    | some v =>
        cases v with
        | file bs => simp [FileTree.content, hat]
        | directory => exact absurd hat hnode

theorem size_plants {key : Bytes} (hc : GovernedKey key → key ∈ K) :
    (t.size key).1 = b.size key ∧ Plants K (t.size key).2.tree b := by
  refine ask_plants hK h hc (fun e he => ?_) fun tree hkey hcontent _ _ => ?_
  · rw [LocalBackend.size, he]
  · simp only [LocalBackend.size, hkey, hcontent]
    cases b.files.lookup key <;> rfl

theorem step_plants {c : TreeCall} (hc : c.Within K) :
    ∃ b', TableStep b c (t.reply c) b' ∧ Plants K (t.step c).tree b' := by
  cases c with
  | put data key =>
      obtain ⟨b', hput, hplants⟩ := put_plants hK h hc
      exact ⟨b', .put hput, hplants⟩
  | remove key =>
      obtain ⟨b', hremove, hplants⟩ := remove_plants hK h hc
      exact ⟨b', .remove hremove, hplants⟩
  | read key =>
      obtain ⟨hanswer, hplants⟩ := read_plants hK h (hc key rfl)
      refine ⟨b, ?_, hplants⟩
      rw [TreeBackend.reply, hanswer]
      exact .read
  | existsKey key =>
      obtain ⟨hanswer, hplants⟩ := existsKey_plants hK h (hc key rfl)
      refine ⟨b, ?_, hplants⟩
      rw [TreeBackend.reply, hanswer]
      exact .existsKey
  | size key =>
      obtain ⟨hanswer, hplants⟩ := size_plants hK h (hc key rfl)
      refine ⟨b, ?_, hplants⟩
      rw [TreeBackend.reply, hanswer]
      exact .size
  | enumerate =>
      obtain ⟨keys, strays, hkeys, hnodup, hperm, hstrays⟩ := enumerate_plants h
      refine ⟨b, ?_, h⟩
      rw [TreeBackend.reply, hkeys]
      exact .enumerate hnodup hperm hstrays
  | cut data key moment => exact cut_plants hK h hc
  | kill => exact ⟨b, .kill, h⟩

end Calls

/-! ### Runs -/

theorem plants_empty (K : Set Bytes) : Plants K ({} : TreeBackend).tree {} where
  content _ _ := FileTree.content_empty _
  known _ hkey := absurd hkey List.not_mem_nil
  files p bs hp := by
    rw [FileTree.content_empty] at hp
    cases hp
  directories p hp := by
    rw [FileTree.node_empty] at hp
    by_cases hnil : p = []
    · exact .inl hnil
    · rw [if_neg hnil] at hp
      cases hp
  granted := ⟨rfl, rfl, rfl⟩

/-- On a tree of directories, puts, reads, removals and questions for keys of which none lies
below another one answer what the table of files says, wherever puts are cut short; and what
is listed are the keys of the table, each once, and names of temporary files. -/
theorem tree_refines_table {K : Set Bytes} (hK : Spread K) {cs : List TreeCall}
    (hcs : ∀ c ∈ cs, c.Within K) :
    ∃ b, Runs.Follows TableStep {}
        (Runs.observed TreeBackend.step TreeBackend.reply {} cs) b ∧
      ∀ key ∈ K, (Runs.run TreeBackend.step {} cs).tree.content (names key) = b.files.lookup key := by
  have hstep : ∀ (t : TreeBackend) (c : TreeCall) (b : LocalBackend), Plants K t.tree b →
      c.Within K → ∃ b', TableStep b c (t.reply c) b' ∧ Plants K (t.step c).tree b' :=
    fun _ _ _ h hc => step_plants hK h hc
  obtain ⟨b, hfollows, hplants⟩ :=
    Runs.simulation hstep (plants_empty K) (Runs.along_of_mem fun _ => hcs)
  exact ⟨b, hfollows, hplants.content⟩

/-! ### The keys of the runtime -/

theorem names_blobKey (id : BlobId) : names (blobKey id) = [ascii "blobs", ascii "blob-" ++ id.str] := by
  have hsplit : blobKey id = ascii "blobs" ++ 47 :: (ascii "blob-" ++ id.str) := rfl
  have hblobs : (47 : UInt8) ∉ ascii "blobs" := by decide
  have hblob : (47 : UInt8) ∉ ascii "blob-" ++ id.str := by
    rw [List.mem_append, not_or]
    exact ⟨by decide, noSlash_decimal _⟩
  rw [hsplit, names_append_slash, names_name hblobs, names_name hblob]
  rfl

/-- The blobs lie beside each other, and no name of theirs begins with a dot. -/
theorem spread_blobKey : Spread (Set.range blobKey) where
  apart := by
    rintro _ ⟨a, rfl⟩ _ ⟨b, rfl⟩ h
    rw [names_blobKey, names_blobKey] at h
    have hnames := h.eq_of_length rfl
    simp only [List.cons.injEq, List.append_cancel_left_eq, and_true, true_and] at hnames
    rw [blobKey, blobKey, hnames]
  plain := by
    rintro _ ⟨id, rfl⟩ file counter h
    rw [names_blobKey] at h
    have hhead : (tempName file counter).head? = some 46 := rfl
    simp only [List.mem_cons, List.not_mem_nil, or_false] at h
    obtain heq | heq := h
    · rw [heq] at hhead
      exact absurd hhead (by decide)
    · rw [heq] at hhead
      exact absurd hhead (by simp [ascii])

/-- A blob that is put and asked for, one that is not there, a key that is refused, and a put
that leaves its temporary file. -/
def smallCalls : List TreeCall :=
  [.put [7] (ascii "blobs/blob-1"), .existsKey (ascii "blobs/blob-1"), .read (ascii "blobs/blob-2"),
    .size (ascii "blobs/.."), .cut [8, 9] (ascii "blobs/blob-1") (.writing 1), .enumerate,
    .remove (ascii "blobs/blob-1"), .kill]

theorem within_smallCalls : ∀ c ∈ smallCalls, c.Within (Set.range blobKey) := by
  have hfirst : ascii "blobs/blob-1" ∈ Set.range blobKey := ⟨⟨1⟩, by decide +kernel⟩
  have hsecond : ascii "blobs/blob-2" ∈ Set.range blobKey := ⟨⟨2⟩, by decide +kernel⟩
  have hrefused : ¬GovernedKey (ascii "blobs/..") := fun h =>
    absurd (validateGovernedKey_isOk_iff.mpr h) (by decide +kernel)
  intro c hc key hkey hgoverned
  simp only [smallCalls, List.mem_cons, List.not_mem_nil, or_false] at hc
  obtain rfl | rfl | rfl | rfl | rfl | rfl | rfl | rfl := hc
  · exact Option.some.inj hkey ▸ hfirst
  · exact Option.some.inj hkey ▸ hfirst
  · exact Option.some.inj hkey ▸ hsecond
  · exact absurd (Option.some.inj hkey ▸ hgoverned) hrefused
  · exact Option.some.inj hkey ▸ hfirst
  · exact absurd hkey.symm (Option.some_ne_none key)
  · exact Option.some.inj hkey ▸ hfirst
  · exact absurd hkey.symm (Option.some_ne_none key)

theorem tree_refines_table_small :
    ∃ b, Runs.Follows TableStep {}
        (Runs.observed TreeBackend.step TreeBackend.reply {} smallCalls) b ∧
      ∀ key ∈ Set.range blobKey,
        (Runs.run TreeBackend.step {} smallCalls).tree.content (names key) = b.files.lookup key :=
  tree_refines_table spread_blobKey within_smallCalls

/-- A key that another one lies below exists, and nothing can be put under it. -/
example :
    let t := Runs.run TreeBackend.step {} [.put [7] (ascii "a/b")]
    (t.existsKey (ascii "a")).1 = .ok true ∧
      (t.put [8] (ascii "a")).1 = Result.fail .ioError "rename failed: Is a directory" := by
  decide +kernel

end StorageFabric
