import StorageFabric.Lib.PosixPath
import StorageFabric.Lib.Runs
import StorageFabric.Storage.Local

/-!
Governed keys and the paths they are resolved to.

The loop of `validate_governed_key` goes from separator to separator, and together
with the checks before it accepts the keys of a small grammar. Such a key has proper
names only, so the normal form of its path is the directory of the objects with the
key behind it.
-/

namespace StorageFabric

/-! ### The loop and the grammar -/

/-- One turn of the loop of `validate_governed_key`, at the offset `start`: the loop ends
with a status, or goes on behind the next separator. -/
def componentTurn (key : Bytes) (start : Nat) : Status ⊕ Nat :=
  if start < key.length then
    let comp := (key.drop start).takeWhile fun b => !isSeparator b
    if comp = [] ∨ comp = ascii "." ∨ comp = ascii ".." then
      .inl (.of .pathUnsafe "unsafe key component")
    else if 128 < comp.length then .inl (.of .invalidArgument "key component too long")
    else if start + comp.length = key.length then .inl .okStatus
    else .inr (start + comp.length + 1)
  else .inl .okStatus

/-- `validate_governed_key`, its loop run turn by turn, returns the status. -/
def Validates (key : Bytes) (s : Status) : Prop :=
  if key = [] then s = .of .invalidArgument "empty key"
  else if 512 < key.length then s = .of .invalidArgument "key too long"
  else if key.head?.any isSeparator then s = .of .pathUnsafe "absolute key"
  else if (0 : UInt8) ∈ key then s = .of .pathUnsafe "key contains NUL"
  else if key.getLast?.any isSeparator then s = .of .pathUnsafe "key ends with a separator"
  else Runs.Exits (componentTurn key) 0 s

/-- A component that a key may have. -/
structure GovernedComponent (comp : Bytes) : Prop where
  nonempty : 1 ≤ comp.length
  short : comp.length ≤ 128
  ne_dot : comp ≠ ascii "."
  ne_dotDot : comp ≠ ascii ".."

/-- The grammar of the keys. -/
structure GovernedKey (key : Bytes) : Prop where
  nonempty : 1 ≤ key.length
  short : key.length ≤ 512
  noNul : 0 ∉ key
  components : ∀ comp ∈ key.splitOnP isSeparator, GovernedComponent comp

@[simp] theorem validateComponents_nil (turns : Nat) : validateComponents turns [] = .okStatus := by
  cases turns <;> rfl

theorem validateComponents_succ {rest : Bytes} (h : rest ≠ []) (turns : Nat) :
    validateComponents (turns + 1) rest =
      let comp := rest.takeWhile fun b => !isSeparator b
      if comp = [] ∨ comp = ascii "." ∨ comp = ascii ".." then
        .of .pathUnsafe "unsafe key component"
      else if 128 < comp.length then .of .invalidArgument "key component too long"
      else validateComponents turns (rest.drop (comp.length + 1)) := by
  cases rest with
  | nil => exact absurd rfl h
  | cons b rest => rfl

theorem exits_componentTurn {key : Bytes} {turns start : Nat} (h : key.length - start ≤ turns) :
    Runs.Exits (componentTurn key) start (validateComponents turns (key.drop start)) := by
  induction turns generalizing start with
  | zero =>
      have hend : key.drop start = [] := List.drop_eq_nil_of_le (by omega)
      rw [hend, validateComponents_nil]
      exact .stop (if_neg (by omega))
  | succ turns ih =>
      by_cases hlt : start < key.length
      · have hne : key.drop start ≠ [] := by
          rw [ne_eq, List.drop_eq_nil_iff]
          omega
        rw [validateComponents_succ hne]
        generalize hcomp : (key.drop start).takeWhile (fun b => !isSeparator b) = comp
        have hturn : componentTurn key start =
            if comp = [] ∨ comp = ascii "." ∨ comp = ascii ".." then
              .inl (.of .pathUnsafe "unsafe key component")
            else if 128 < comp.length then .inl (.of .invalidArgument "key component too long")
            else if start + comp.length = key.length then .inl .okStatus
            else .inr (start + comp.length + 1) := by
          rw [componentTurn, if_pos hlt, hcomp]
        dsimp only
        by_cases hbad : comp = [] ∨ comp = ascii "." ∨ comp = ascii ".."
        · rw [if_pos hbad] at hturn ⊢
          exact .stop hturn
        · rw [if_neg hbad] at hturn ⊢
          by_cases hlong : 128 < comp.length
          · rw [if_pos hlong] at hturn ⊢
            exact .stop hturn
          · rw [if_neg hlong] at hturn ⊢
            rw [List.drop_drop]
            by_cases hlast : start + comp.length = key.length
            · rw [if_pos hlast] at hturn
              have hend : key.drop (start + (comp.length + 1)) = [] :=
                List.drop_eq_nil_of_le (by omega)
              rw [hend, validateComponents_nil]
              exact .stop hturn
            · rw [if_neg hlast] at hturn
              exact .again hturn (ih (by omega))
      · have hend : key.drop start = [] := List.drop_eq_nil_of_le (by omega)
        rw [hend, validateComponents_nil]
        exact .stop (if_neg hlt)

theorem validates_iff {key : Bytes} {s : Status} :
    Validates key s ↔ s = validateGovernedKey key := by
  unfold Validates validateGovernedKey
  split
  · rfl
  · split
    · rfl
    · split
      · rfl
      · split
        · rfl
        · split
          · rfl
          · have hexits : Runs.Exits (componentTurn key) 0 (validateComponents key.length key) :=
              exits_componentTurn (Nat.sub_le _ _)
            exact ⟨fun h => h.unique hexits, fun h => h ▸ hexits⟩

theorem governedComponent_iff {comp : Bytes} :
    GovernedComponent comp ↔
      ¬(comp = [] ∨ comp = ascii "." ∨ comp = ascii "..") ∧ ¬128 < comp.length := by
  rw [not_or, not_or]
  constructor
  · rintro ⟨hpos, hshort, hdot, hdotDot⟩
    refine ⟨⟨?_, hdot, hdotDot⟩, by omega⟩
    rintro rfl
    exact absurd hpos (by decide)
  · rintro ⟨⟨hne, hdot, hdotDot⟩, hshort⟩
    exact ⟨List.length_pos_of_ne_nil hne, by omega, hdot, hdotDot⟩

/-- A key that does not end with a separator passes the loop exactly if all its
components are governed. -/
theorem isOk_validateComponents {turns : Nat} {rest : Bytes} (hturns : rest.length ≤ turns)
    (hne : rest ≠ []) (hlast : rest.getLast?.any isSeparator = false) :
    (validateComponents turns rest).isOk = true ↔
      ∀ comp ∈ rest.splitOnP isSeparator, GovernedComponent comp := by
  induction turns generalizing rest with
  | zero => exact absurd (List.eq_nil_of_length_eq_zero (Nat.le_zero.mp hturns)) hne
  | succ turns ih =>
      have happend := List.takeWhile_append_dropWhile (p := fun b => !isSeparator b) (l := rest)
      have hclean : ∀ x ∈ rest.takeWhile (fun b => !isSeparator b), isSeparator x = false :=
        fun x hx => by simpa using List.mem_takeWhile_imp hx
      have hhead := List.head?_dropWhile_not (fun b => !isSeparator b) rest
      rw [validateComponents_succ hne]
      generalize rest.takeWhile (fun b => !isSeparator b) = comp at happend hclean ⊢
      generalize rest.dropWhile (fun b => !isSeparator b) = tail at happend hhead
      dsimp only
      -- one turn of the loop, whatever the turns after it say
      have hpasses : ∀ s : Status, (if comp = [] ∨ comp = ascii "." ∨ comp = ascii ".." then
            .of .pathUnsafe "unsafe key component"
          else if 128 < comp.length then .of .invalidArgument "key component too long"
          else s : Status).isOk = true ↔ GovernedComponent comp ∧ s.isOk = true := by
        intro s
        rw [governedComponent_iff]
        by_cases hbad : comp = [] ∨ comp = ascii "." ∨ comp = ascii ".."
        · simp [hbad, Status.of, Status.isOk]
        · by_cases hlong : 128 < comp.length
          · simp [hbad, hlong, Status.of, Status.isOk]
          · simp [hbad, hlong]
      rw [hpasses]
      cases tail with
      | nil =>
          rw [List.append_nil] at happend
          subst happend
          rw [List.drop_eq_nil_of_le (by omega), validateComponents_nil,
            List.splitOnP_eq_singleton hclean, List.forall_mem_singleton]
          exact and_iff_left rfl
      | cons sep rest' =>
          have hsep : isSeparator sep = true := by simpa using hhead
          have hdrop : rest.drop (comp.length + 1) = rest' := by
            rw [← happend]
            simp
          -- the key does not end here, since its last byte is no separator
          have hne' : rest' ≠ [] := by
            rintro rfl
            rw [← happend, List.getLast?_concat] at hlast
            simp [hsep] at hlast
          have hlast' : rest'.getLast?.any isSeparator = false := by
            rw [← happend, List.append_cons, List.getLast?_append_of_ne_nil _ hne'] at hlast
            exact hlast
          have hlength : rest'.length ≤ turns := by
            have := congrArg List.length happend
            simp only [List.length_append, List.length_cons] at this
            omega
          rw [hdrop, ih hlength hne' hlast', ← happend,
            List.splitOnP_append_cons_of_forall_mem hclean sep hsep, List.forall_mem_cons]

/-- The keys that are accepted are those of the grammar. -/
theorem validateGovernedKey_isOk_iff {key : Bytes} :
    (validateGovernedKey key).isOk = true ↔ GovernedKey key := by
  unfold validateGovernedKey
  by_cases hempty : key = []
  · rw [if_pos hempty]
    exact ⟨nofun, fun h => absurd h.nonempty (by simp [hempty])⟩
  rw [if_neg hempty]
  by_cases hlong : 512 < key.length
  · rw [if_pos hlong]
    exact ⟨nofun, fun h => absurd h.short (by omega)⟩
  rw [if_neg hlong]
  by_cases hfirst : key.head?.any isSeparator = true
  · rw [if_pos hfirst]
    refine ⟨nofun, fun h => ?_⟩
    obtain ⟨sep, rest, rfl⟩ := List.exists_cons_of_ne_nil hempty
    have hsep : isSeparator sep = true := hfirst
    have hcut := List.splitOnP_append_cons [] rest hsep
    have hnil : ([] : Bytes) ∈ (sep :: rest).splitOnP isSeparator := by
      rw [List.nil_append] at hcut
      rw [hcut]
      simp
    exact absurd (h.components [] hnil).nonempty (by decide)
  rw [if_neg hfirst]
  by_cases hnul : (0 : UInt8) ∈ key
  · rw [if_pos hnul]
    exact ⟨nofun, fun h => absurd hnul h.noNul⟩
  rw [if_neg hnul]
  by_cases hlast : key.getLast?.any isSeparator = true
  · rw [if_pos hlast]
    refine ⟨nofun, fun h => ?_⟩
    obtain ⟨front, sep, rfl⟩ : ∃ front sep, key = front ++ [sep] :=
      ⟨_, _, (List.dropLast_append_getLast hempty).symm⟩
    have hsep : isSeparator sep = true := by simpa using hlast
    have hnil : ([] : Bytes) ∈ (front ++ [sep]).splitOnP isSeparator := by
      rw [List.splitOnP_append_cons front [] hsep]
      simp
    exact absurd (h.components [] hnil).nonempty (by decide)
  rw [if_neg hlast, isOk_validateComponents le_rfl hempty (Bool.eq_false_iff.mpr hlast)]
  exact ⟨fun h => ⟨List.length_pos_of_ne_nil hempty, by omega, hnul, h⟩, fun h => h.components⟩

/-! ### Paths -/

namespace LocalBackend

open PosixPath

/-- `to_native` on POSIX, where a backslash is a character like any other. -/
def toNative (key : Bytes) : Path := key

def objectsDir (base : Path) : Path := append base (ascii "objects")

def targetPath (base : Path) (key : Bytes) : Path :=
  lexicallyNormal (append (objectsDir base) (toNative key))

/-- `resolve_key`, with the working directory of the process if it can be found. -/
def resolveKeyPath (cwd : Option Path) (root : Path) (key : Bytes) : Result Path :=
  let k := validateGovernedKey key
  if !k.isOk then .error k
  else
    match absolute cwd root with
    | none => Result.fail .ioError "cannot resolve backend root"
    | some base =>
        let target := targetPath base key
        let rootPrefix := lexicallyNormal (lexicallyNormal base)
        let parentFull := (absolute cwd (parentPath target)).getD []
        if !rootPrefix.isPrefixOf (lexicallyNormal parentFull) then
          Result.fail .pathUnsafe "key escapes backend root"
        else .ok target

theorem mem_splitOnP_of_mem_names {key : Bytes} {n : Name} (h : n ∈ names key)
    (hclean : ∀ x ∈ n, isSeparator x = false) : n ∈ key.splitOnP isSeparator := by
  -- the first name is kept apart: it is the one that still grows
  have hcut : ∀ m ms, names key = m :: ms → ∃ c cs, key.splitOnP isSeparator = c :: cs ∧
      ((∀ x ∈ m, isSeparator x = false) → c = m) ∧
      ∀ n ∈ ms, (∀ x ∈ n, isSeparator x = false) → n ∈ cs := by
    clear h
    induction key with
    | nil =>
        intro m ms hnames
        obtain ⟨rfl, rfl⟩ := List.cons.inj hnames
        exact ⟨[], [], rfl, fun _ => rfl, by simp⟩
    | cons x key ih =>
        intro m ms hnames
        obtain ⟨m', ms', hsplit⟩ := List.exists_cons_of_ne_nil (names_ne_nil key)
        obtain ⟨c, cs, hkey, hfirst, hrest⟩ := ih m' ms' hsplit
        rw [names, List.splitOn_cons_eq_if_modifyHead, show key.splitOn 47 = m' :: ms' from hsplit]
          at hnames
        rw [List.splitOnP_cons_eq_if_modifyHead, hkey]
        have hall : ∀ n ∈ m' :: ms', (∀ y ∈ n, isSeparator y = false) → n ∈ c :: cs := by
          intro n hn hclean
          obtain rfl | hn := List.mem_cons.mp hn
          · rw [hfirst hclean]
            exact List.mem_cons_self
          · exact List.mem_cons_of_mem c (hrest n hn hclean)
        by_cases hslash : x = 47
        · have hsep : isSeparator x = true := by rw [hslash]; rfl
          rw [if_pos (by simp [hslash])] at hnames
          obtain ⟨rfl, rfl⟩ := List.cons.inj hnames
          rw [if_pos hsep]
          exact ⟨[], c :: cs, rfl, fun _ => rfl, hall⟩
        · rw [if_neg (by simp [hslash])] at hnames
          obtain ⟨rfl, rfl⟩ := List.cons.inj hnames
          by_cases hsep : isSeparator x = true
          · rw [if_pos hsep]
            refine ⟨[], c :: cs, rfl, fun hclean => ?_, fun n hn => hall n (List.mem_cons_of_mem _ hn)⟩
            exact absurd (hclean x List.mem_cons_self) (by simp [hsep])
          · rw [if_neg hsep]
            exact ⟨x :: c, cs, rfl,
              fun hclean => by rw [hfirst fun y hy => hclean y (List.mem_cons_of_mem x hy)], hrest⟩
  obtain ⟨m, ms, hnames⟩ := List.exists_cons_of_ne_nil (names_ne_nil key)
  obtain ⟨c, cs, hkey, hfirst, hrest⟩ := hcut m ms hnames
  rw [hnames] at h
  rw [hkey]
  obtain rfl | h := List.mem_cons.mp h
  · rw [hfirst hclean]
    exact List.mem_cons_self
  · exact List.mem_cons_of_mem c (hrest n h hclean)

theorem proper_of_governed {key : Bytes} (h : GovernedKey key) : ∀ n ∈ names key, Proper n := by
  have hcomponent : ∀ n ∈ names key, (∀ x ∈ n, isSeparator x = false) → GovernedComponent n :=
    fun n hn hclean => h.components n (mem_splitOnP_of_mem_names hn hclean)
  intro n hn
  refine ⟨?_, ?_, ?_, noSlash_of_mem_names hn⟩
  · rintro rfl
    exact absurd (hcomponent [] hn (by simp)).nonempty (by decide)
  · rintro rfl
    exact (hcomponent dot hn (by simp [dot, isSeparator])).ne_dot rfl
  · rintro rfl
    exact (hcomponent dotDot hn (by simp [dotDot, isSeparator])).ne_dotDot rfl

theorem relative_of_governed {key : Bytes} (h : GovernedKey key) : isAbsolute key = false := by
  rw [Bool.eq_false_iff]
  intro habs
  obtain ⟨x, rest, rfl⟩ := List.exists_cons_of_ne_nil (List.ne_nil_of_length_pos h.nonempty)
  have hx : x = 47 := Option.some.inj (of_decide_eq_true habs)
  have hnil : [] ∈ names (x :: rest) := by
    rw [hx, names_slash]
    exact List.mem_cons_self
  exact (proper_of_governed h [] hnil).ne_nil rfl

theorem names_objects : names (ascii "objects") = [ascii "objects"] := by decide

theorem proper_objects : Proper (ascii "objects") := by constructor <;> decide

theorem proper_names_objects : ∀ n ∈ names (ascii "objects"), Proper n := by
  rw [names_objects, List.forall_mem_singleton]
  exact proper_objects

section Confined

variable {root : Path} (hroot : isAbsolute root = true)

include hroot

theorem isAbsolute_objectsDir : isAbsolute (objectsDir root) = true := isAbsolute_append hroot rfl

theorem normalNames_objectsDir :
    normalNames (objectsDir root) = normalNames root ++ [ascii "objects"] := by
  rw [objectsDir, normalNames_append hroot rfl proper_names_objects, names_objects]

theorem lexicallyNormal_objectsDir :
    lexicallyNormal (objectsDir root) = rooted (normalNames (objectsDir root)) := by
  rw [normalNames_objectsDir hroot, rooted_append, objectsDir,
    lexicallyNormal_append hroot rfl proper_names_objects, ← rooted_names, names_objects]

/-- A governed key is resolved to the directory of the objects with the key behind it. -/
theorem targetPath_eq {key : Bytes} (h : GovernedKey key) :
    targetPath root key = lexicallyNormal (objectsDir root) ++ 47 :: key := by
  rw [targetPath, toNative, lexicallyNormal_append (isAbsolute_objectsDir hroot)
    (relative_of_governed h) (proper_of_governed h), lexicallyNormal_objectsDir hroot]

theorem targetPath_strictlyBelow {key : Bytes} (h : GovernedKey key) :
    StrictlyBelow (lexicallyNormal (objectsDir root)) (targetPath root key) :=
  ⟨names key, names_ne_nil key, proper_of_governed h, by
    rw [targetPath_eq hroot h, rooted_names]⟩

theorem targetPath_injective {key key' : Bytes} (h : GovernedKey key) (h' : GovernedKey key')
    (heq : targetPath root key = targetPath root key') : key = key' := by
  rw [targetPath_eq hroot h, targetPath_eq hroot h'] at heq
  exact (List.cons.inj (List.append_cancel_left heq)).2

theorem root_prefix_parent (cwd : Option Path) {key : Bytes} (h : GovernedKey key) :
    lexicallyNormal (lexicallyNormal root) <+:
      lexicallyNormal ((absolute cwd (parentPath (targetPath root key))).getD []) := by
  obtain ⟨ks, k, hks⟩ : ∃ ks k, names key = ks ++ [k] :=
    ⟨_, _, (List.dropLast_append_getLast (names_ne_nil key)).symm⟩
  have hkey : ∀ n ∈ names key, Proper n := proper_of_governed h
  -- all the names above the last one
  generalize hall : normalNames root ++ ascii "objects" :: ks = all
  have hne : all ≠ [] := by
    rw [← hall]
    simp
  have hproper : ∀ n ∈ all, Proper n := by
    intro n hn
    rw [← hall, List.mem_append, List.mem_cons] at hn
    obtain hn | rfl | hn := hn
    · exact proper_of_mem_normalNames hroot n hn
    · exact proper_objects
    · exact hkey n (hks ▸ List.mem_append_left _ hn)
  have hlast : 47 ∉ k := (hkey k (hks ▸ List.mem_append_right _ (List.mem_singleton_self k))).noSlash
  have htarget : targetPath root key = rooted (all ++ [k]) := by
    rw [targetPath_eq hroot h, lexicallyNormal_objectsDir hroot, normalNames_objectsDir hroot,
      ← rooted_names, hks, ← rooted_append, ← hall]
    simp
  have hparent : (absolute cwd (parentPath (targetPath root key))).getD [] = rooted all := by
    rw [htarget, parentPath_rooted hne hproper hlast, absolute, if_pos (isAbsolute_rooted hne)]
    rfl
  rw [hparent, lexicallyNormal_rooted hne hproper, lexicallyNormal_idem hroot, ← hall]
  exact lexicallyNormal_prefix hroot (List.cons_ne_nil _ _)

theorem resolveKeyPath_of_governed (cwd : Option Path) {key : Bytes} (h : GovernedKey key) :
    resolveKeyPath cwd root key = .ok (targetPath root key) := by
  have hbase : absolute cwd root = some root := if_pos hroot
  have hprefix : (lexicallyNormal (lexicallyNormal root)).isPrefixOf
      (lexicallyNormal ((absolute cwd (parentPath (targetPath root key))).getD [])) = true :=
    List.isPrefixOf_iff_prefix.mpr (root_prefix_parent hroot cwd h)
  unfold resolveKeyPath
  simp only [validateGovernedKey_isOk_iff.mpr h, hbase, hprefix, Bool.not_true, Bool.false_eq_true,
    if_false]

/-- The model's `resolve_key` stands for the one on paths: an accepted key is kept under
itself, and different keys are different files. -/
theorem resolveKeyPath_eq (cwd : Option Path) (key : Bytes) :
    resolveKeyPath cwd root key = (resolveKey key).map (targetPath root) := by
  by_cases h : (validateGovernedKey key).isOk = true
  · rw [resolveKeyPath_of_governed hroot cwd (validateGovernedKey_isOk_iff.mp h)]
    simp only [resolveKey, h, Bool.not_true, Bool.false_eq_true, if_false]
    rfl
  · rw [Bool.not_eq_true] at h
    simp only [resolveKeyPath, resolveKey, h, Bool.not_false, if_true]
    rfl

end Confined

/-- Governed keys are confined: the validation returns on every string, and accepts the
keys of the grammar; below an absolute root an accepted key has a path strictly below
the directory of the objects, which `resolve_key` lets pass, and which no other
accepted key has. -/
theorem governed_keys_confined :
    (∀ key s, Validates key s ↔ s = validateGovernedKey key) ∧
    (∀ key, (validateGovernedKey key).isOk = true ↔ GovernedKey key) ∧
    ∀ cwd root, isAbsolute root = true →
      (∀ key, (validateGovernedKey key).isOk = true →
        StrictlyBelow (lexicallyNormal (objectsDir root)) (targetPath root key) ∧
          resolveKeyPath cwd root key = .ok (targetPath root key)) ∧
      ∀ key key', (validateGovernedKey key).isOk = true → (validateGovernedKey key').isOk = true →
        targetPath root key = targetPath root key' → key = key' := by
  refine ⟨fun _ _ => validates_iff, fun _ => validateGovernedKey_isOk_iff, fun cwd root hroot => ?_⟩
  refine ⟨fun key hkey => ?_, fun key key' hkey hkey' heq => ?_⟩
  · have h := validateGovernedKey_isOk_iff.mp hkey
    exact ⟨targetPath_strictlyBelow hroot h, resolveKeyPath_of_governed hroot cwd h⟩
  · exact targetPath_injective hroot (validateGovernedKey_isOk_iff.mp hkey)
      (validateGovernedKey_isOk_iff.mp hkey') heq

theorem governed_keys_confined_small :
    targetPath (ascii "/srv/../data/") (ascii "blobs/b-1") = ascii "/data/objects/blobs/b-1" ∧
      resolveKeyPath none (ascii "/srv/../data/") (ascii "blobs/b-1") =
        .ok (ascii "/data/objects/blobs/b-1") := by
  have htarget : targetPath (ascii "/srv/../data/") (ascii "blobs/b-1") =
      ascii "/data/objects/blobs/b-1" := by decide +kernel
  obtain ⟨-, hresolve⟩ := (governed_keys_confined.2.2 none (ascii "/srv/../data/") rfl).1
    (ascii "blobs/b-1") (by decide +kernel)
  exact ⟨htarget, htarget ▸ hresolve⟩

end LocalBackend

end StorageFabric
