import Mathlib.Data.List.DropRight

/-!
Paths as strings of bytes, and their lexical normal form.

A path is cut into names at its slashes. The normal form drops the empty names and
the dots, and a dot-dot takes the name before it away; what ends like a directory
keeps one slash at its end. Below an absolute path, names that are none of these
are kept as they are, so the normal form of a path with such names appended is the
normal form of the path, and the names after it.
-/

namespace PosixPath

abbrev Path := List UInt8

abbrev Name := List UInt8

def dot : Name := [46]

def dotDot : Name := [46, 46]

/-- The names between the slashes. -/
def names (p : Path) : List Name := p.splitOn 47

def isAbsolute (p : Path) : Bool := p.head? = some 47

/-- `p / q`. -/
def append (p q : Path) : Path :=
  if isAbsolute q then q
  else if p = [] ∨ p.getLast? = some 47 then p ++ q
  else p ++ 47 :: q

/-- `absolute(p)`, with the working directory, if it can be found. -/
def absolute (cwd : Option Path) (p : Path) : Option Path :=
  if isAbsolute p then some p else cwd.map fun dir => append dir p

def pushName (rooted : Bool) (stack : List Name) (n : Name) : List Name :=
  if n = [] ∨ n = dot then stack
  else if n = dotDot then
    match stack with
    | [] => if rooted then [] else [n]
    | top :: rest => if top = dotDot then n :: stack else rest
  else n :: stack

def normalNames (p : Path) : List Name := ((names p).foldl (pushName (isAbsolute p)) []).reverse

def endsInDirectory (p : Path) : Bool :=
  (names p).getLast?.any fun n => n = [] || n = dot || n = dotDot

def lexicallyNormal (p : Path) : Path :=
  let ns := normalNames p
  let tail := if endsInDirectory p && !ns.isEmpty && ns.getLast? ≠ some dotDot then [47] else []
  let normal := (if isAbsolute p then [47] else []) ++ [47].intercalate ns ++ tail
  if p ≠ [] ∧ normal = [] then dot else normal

def parentPath (p : Path) : Path :=
  let dir := p.rdropWhile (· ≠ 47)
  let stripped := dir.rdropWhile (· = 47)
  if stripped = [] then dir else stripped

/-! ### Names -/

structure Proper (n : Name) : Prop where
  ne_nil : n ≠ []
  ne_dot : n ≠ dot
  ne_dotDot : n ≠ dotDot
  noSlash : 47 ∉ n

theorem noSlash_of_mem_names {p : Path} {n : Name} (h : n ∈ names p) : 47 ∉ n := by
  unfold names at h
  induction p generalizing n with
  | nil =>
      rw [List.splitOn_nil, List.mem_singleton] at h
      simp [h]
  | cons x p ih =>
      rw [List.splitOn_cons_eq_if_modifyHead] at h
      by_cases hx : x = 47
      · simp only [hx, beq_self_eq_true, if_true, List.mem_cons] at h
        obtain rfl | h := h
        · simp
        · exact ih h
      · have hbeq : (x == 47) = false := beq_eq_false_iff_ne.mpr hx
        obtain ⟨m, ms, hsplit⟩ := List.exists_cons_of_ne_nil (List.splitOn_ne_nil 47 p)
        simp only [hbeq, Bool.false_eq_true, if_false, hsplit, List.modifyHead_cons,
          List.mem_cons] at h
        rw [hsplit] at ih
        obtain rfl | h := h
        · rw [List.mem_cons, not_or]
          exact ⟨Ne.symm hx, ih List.mem_cons_self⟩
        · exact ih (List.mem_cons_of_mem m h)

theorem pushName_proper (rooted : Bool) (stack : List Name) {n : Name} (h : Proper n) :
    pushName rooted stack n = n :: stack := by
  unfold pushName
  rw [if_neg (not_or.mpr ⟨h.ne_nil, h.ne_dot⟩), if_neg h.ne_dotDot]

theorem foldl_pushName_proper (rooted : Bool) {ns : List Name} (h : ∀ n ∈ ns, Proper n)
    (stack : List Name) : ns.foldl (pushName rooted) stack = ns.reverse ++ stack := by
  induction ns generalizing stack with
  | nil => rfl
  | cons n ns ih =>
      rw [List.foldl_cons, pushName_proper rooted stack (h n List.mem_cons_self),
        ih fun m hm => h m (List.mem_cons_of_mem n hm)]
      simp

/-- Below the root nothing but proper names is ever on the stack. -/
theorem proper_pushName {stack : List Name} (hstack : ∀ m ∈ stack, Proper m) {n : Name}
    (hn : 47 ∉ n) : ∀ m ∈ pushName true stack n, Proper m := by
  unfold pushName
  by_cases hskip : n = [] ∨ n = dot
  · rw [if_pos hskip]
    exact hstack
  · rw [if_neg hskip]
    rw [not_or] at hskip
    by_cases hup : n = dotDot
    · rw [if_pos hup]
      cases stack with
      | nil => simp
      | cons top rest =>
          have htop := (hstack top List.mem_cons_self).ne_dotDot
          simp only [if_neg htop]
          exact fun m hm => hstack m (List.mem_cons_of_mem top hm)
    · rw [if_neg hup]
      intro m hm
      obtain rfl | hm := List.mem_cons.mp hm
      · exact ⟨hskip.1, hskip.2, hup, hn⟩
      · exact hstack m hm

theorem proper_of_mem_normalNames {p : Path} (habs : isAbsolute p = true) :
    ∀ n ∈ normalNames p, Proper n := by
  have hfold : ∀ ns : List Name, (∀ n ∈ ns, 47 ∉ n) → ∀ stack : List Name,
      (∀ m ∈ stack, Proper m) → ∀ m ∈ ns.foldl (pushName true) stack, Proper m := by
    intro ns hns
    induction ns with
    | nil => exact fun stack hstack => hstack
    | cons n ns ih =>
        intro stack hstack
        rw [List.foldl_cons]
        exact ih (fun m hm => hns m (List.mem_cons_of_mem n hm)) _
          (proper_pushName hstack (hns n List.mem_cons_self))
  intro n hn
  rw [normalNames, habs, List.mem_reverse] at hn
  exact hfold _ (fun m hm => noSlash_of_mem_names hm) [] (by simp) n hn

/-! ### Absolute paths from their names -/

def rooted (ns : List Name) : Path := (ns.map fun n => 47 :: n).flatten

theorem rooted_append (ns ms : List Name) : rooted (ns ++ ms) = rooted ns ++ rooted ms := by
  simp [rooted]

theorem rooted_eq_intercalate {ns : List Name} (h : ns ≠ []) :
    rooted ns = 47 :: [47].intercalate ns := by
  induction ns with
  | nil => exact absurd rfl h
  | cons n ns ih =>
      cases ns with
      | nil => simp [rooted]
      | cons m ms =>
          have htail := ih (by simp)
          rw [List.intercalate_cons_cons]
          simp only [rooted, List.map_cons, List.flatten_cons] at htail ⊢
          simp [htail]

def StrictlyBelow (dir p : Path) : Prop :=
  ∃ ns : List Name, ns ≠ [] ∧ (∀ n ∈ ns, Proper n) ∧ p = dir ++ rooted ns

theorem rooted_names (p : Path) : rooted (names p) = 47 :: p := by
  have hne : names p ≠ [] := List.splitOn_ne_nil 47 p
  rw [rooted_eq_intercalate hne, names, List.intercalate_splitOn]

theorem isAbsolute_rooted {ns : List Name} (h : ns ≠ []) : isAbsolute (rooted ns) = true := by
  rw [rooted_eq_intercalate h]
  rfl

theorem names_slash (p : Path) : names (47 :: p) = [] :: names p := by
  rw [names, List.splitOn_cons_eq_if_modifyHead]
  rfl

theorem names_append_slash (p q : Path) : names (p ++ 47 :: q) = names p ++ names q :=
  List.splitOn_append_cons_self p q

theorem names_rooted {ns : List Name} (hne : ns ≠ []) (h : ∀ n ∈ ns, Proper n) :
    names (rooted ns) = [] :: ns := by
  rw [rooted_eq_intercalate hne, names_slash, names,
    List.splitOn_intercalate 47 (fun n hn => (h n hn).noSlash) hne]

theorem names_name {n : Name} (h : 47 ∉ n) : names n = [n] := by
  have hall : ∀ m ∈ [n], 47 ∉ m := by simpa using h
  simpa [names] using List.splitOn_intercalate 47 hall (List.cons_ne_nil _ _)

theorem parentPath_ne_nil {p : Path} (h : 47 ∈ p) : parentPath p ≠ [] := by
  have hdir : p.rdropWhile (· ≠ 47) ≠ [] := by
    rw [Ne, List.rdropWhile_eq_nil_iff]
    exact fun hall => absurd (hall 47 h) (by simp)
  unfold parentPath
  dsimp only
  split
  · exact hdir
  · assumption

/-! ### Normal forms -/

theorem isAbsolute_append {p q : Path} (hp : isAbsolute p = true) (hq : isAbsolute q = false) :
    isAbsolute (append p q) = true := by
  cases p with
  | nil => cases hp
  | cons x p =>
      have hx : some x = some (47 : UInt8) := of_decide_eq_true hp
      have hnot : ¬isAbsolute q = true := by simp [hq]
      unfold append
      rw [if_neg hnot]
      split
      · exact decide_eq_true hx
      · exact decide_eq_true hx

theorem names_ne_nil (p : Path) : names p ≠ [] := List.splitOn_ne_nil 47 p

/-- The names of an appended relative path come after those before it, less an empty
name where a trailing slash is used for the slash between them. -/
theorem names_append {p q : Path} (hp : p ≠ []) (hq : isAbsolute q = false) :
    ∃ ns, names (append p q) = ns ++ names q ∧ (names p = ns ∨ names p = ns ++ [[]]) := by
  have hnot : ¬isAbsolute q = true := by simp [hq]
  unfold append
  rw [if_neg hnot]
  by_cases hslash : p.getLast? = some 47
  · obtain ⟨front, rfl⟩ := List.getLast?_eq_some_iff.mp hslash
    rw [if_pos (.inr hslash), List.append_assoc, List.singleton_append, names_append_slash]
    exact ⟨names front, rfl, .inr (names_append_slash front [])⟩
  · rw [if_neg (not_or.mpr ⟨hp, hslash⟩), names_append_slash]
    exact ⟨names p, rfl, .inl rfl⟩

/-- An empty name moves nothing, so the fold goes on where that over the path stopped. -/
theorem foldl_names_append {p q : Path} (hp : p ≠ []) (hq : isAbsolute q = false) (rooted : Bool)
    (stack : List Name) :
    (names (append p q)).foldl (pushName rooted) stack =
      (names q).foldl (pushName rooted) ((names p).foldl (pushName rooted) stack) := by
  obtain ⟨ns, happend, hns | hns⟩ := names_append hp hq
  · rw [happend, List.foldl_append, hns]
  · rw [happend, List.foldl_append, hns, List.foldl_append]
    rfl

theorem getLast?_names_append {p q : Path} (hp : p ≠ []) (hq : isAbsolute q = false) :
    (names (append p q)).getLast? = (names q).getLast? := by
  obtain ⟨ns, happend, -⟩ := names_append hp hq
  rw [happend, List.getLast?_append_of_ne_nil _ (names_ne_nil q)]

theorem endsInDirectory_of_proper {p : Path} {n : Name} (hlast : (names p).getLast? = some n)
    (hn : Proper n) : endsInDirectory p = false := by
  simp [endsInDirectory, hlast, hn.ne_nil, hn.ne_dot, hn.ne_dotDot]

/-- The normal form of an absolute path with names left that does not end like a
directory. -/
theorem lexicallyNormal_of_file {p : Path} (habs : isAbsolute p = true)
    (hne : normalNames p ≠ []) (hfile : endsInDirectory p = false) :
    lexicallyNormal p = rooted (normalNames p) := by
  unfold lexicallyNormal
  simp only [hfile, habs, Bool.false_and, Bool.false_eq_true, if_true, if_false, List.append_nil,
    List.singleton_append]
  rw [if_neg (fun h => by cases h.2), rooted_eq_intercalate hne]

theorem normalNames_append {p q : Path} (hp : isAbsolute p = true) (hq : isAbsolute q = false)
    (hproper : ∀ n ∈ names q, Proper n) :
    normalNames (append p q) = normalNames p ++ names q := by
  have hne : p ≠ [] := by
    rintro rfl
    cases hp
  rw [normalNames, normalNames, isAbsolute_append hp hq, hp, foldl_names_append hne hq,
    foldl_pushName_proper true hproper]
  simp

theorem lexicallyNormal_append {p q : Path} (hp : isAbsolute p = true) (hq : isAbsolute q = false)
    (hproper : ∀ n ∈ names q, Proper n) :
    lexicallyNormal (append p q) = rooted (normalNames p) ++ 47 :: q := by
  have hne : p ≠ [] := by
    rintro rfl
    cases hp
  have hnames := normalNames_append hp hq hproper
  have hleft : normalNames (append p q) ≠ [] := by
    rw [hnames]
    exact List.append_ne_nil_of_right_ne_nil _ (names_ne_nil q)
  have hlast := List.getLast?_eq_some_getLast (names_ne_nil q)
  have hfile : endsInDirectory (append p q) = false :=
    endsInDirectory_of_proper ((getLast?_names_append hne hq).trans hlast)
      (hproper _ (List.getLast_mem (names_ne_nil q)))
  rw [lexicallyNormal_of_file (isAbsolute_append hp hq) hleft hfile, hnames, rooted_append,
    rooted_names]

theorem normalNames_rooted {ns : List Name} (hne : ns ≠ []) (h : ∀ n ∈ ns, Proper n) :
    normalNames (rooted ns) = ns := by
  rw [normalNames, isAbsolute_rooted hne, names_rooted hne h, List.foldl_cons]
  show (ns.foldl (pushName true) []).reverse = ns
  rw [foldl_pushName_proper true h]
  simp

theorem lexicallyNormal_rooted {ns : List Name} (hne : ns ≠ []) (h : ∀ n ∈ ns, Proper n) :
    lexicallyNormal (rooted ns) = rooted ns := by
  have hnames := normalNames_rooted hne h
  have hlast : (names (rooted ns)).getLast? = some (ns.getLast hne) := by
    rw [names_rooted hne h, List.getLast?_cons_of_ne_nil hne, List.getLast?_eq_some_getLast hne]
  have hfile := endsInDirectory_of_proper hlast (h _ (List.getLast_mem hne))
  rw [lexicallyNormal_of_file (isAbsolute_rooted hne) (by rwa [hnames]) hfile, hnames]

theorem lexicallyNormal_rooted_slash {ns : List Name} (hne : ns ≠ []) (h : ∀ n ∈ ns, Proper n) :
    lexicallyNormal (rooted ns ++ [47]) = rooted ns ++ [47] := by
  have hsplit : names (rooted ns ++ [47]) = [] :: ns ++ [[]] := by
    rw [names_append_slash, names_rooted hne h]
    rfl
  have habs : isAbsolute (rooted ns ++ [47]) = true := by
    rw [rooted_eq_intercalate hne]
    rfl
  have hnames : normalNames (rooted ns ++ [47]) = ns := by
    rw [normalNames, habs, hsplit, List.foldl_append, List.foldl_cons]
    show (ns.foldl (pushName true) []).reverse = ns
    rw [foldl_pushName_proper true h]
    simp
  have hends : endsInDirectory (rooted ns ++ [47]) = true := by
    rw [endsInDirectory, hsplit, List.getLast?_concat]
    rfl
  have hlast : ns.getLast? ≠ some dotDot := by
    rw [List.getLast?_eq_some_getLast hne]
    exact fun heq => (h _ (List.getLast_mem hne)).ne_dotDot (Option.some.inj heq)
  unfold lexicallyNormal
  simp only [hnames, habs, hends, hlast, if_true, Bool.true_and, List.singleton_append,
    ne_eq, not_false_eq_true, decide_true, Bool.and_true]
  rw [if_neg (fun hnil => by simp at hnil), rooted_eq_intercalate hne]
  simp [hne]

/-- The normal form of an absolute path: its names, with or without a slash behind
them, or the root. -/
theorem lexicallyNormal_cases {p : Path} (habs : isAbsolute p = true) :
    (normalNames p = [] ∧ lexicallyNormal p = [47]) ∨
    (normalNames p ≠ [] ∧ (lexicallyNormal p = rooted (normalNames p) ∨
      lexicallyNormal p = rooted (normalNames p) ++ [47])) := by
  unfold lexicallyNormal
  by_cases hne : normalNames p = []
  · simp [hne, habs]
  · have hbody : [47] ++ [47].intercalate (normalNames p) = rooted (normalNames p) := by
      rw [rooted_eq_intercalate hne]
      rfl
    refine .inr ⟨hne, ?_⟩
    simp only [habs, if_true, hbody]
    have hnot : ∀ tail, ¬(p ≠ [] ∧ rooted (normalNames p) ++ tail = []) := by
      intro tail h
      rw [rooted_eq_intercalate hne] at h
      cases h.2
    rw [if_neg (hnot _)]
    split
    · exact .inr rfl
    · exact .inl (List.append_nil _)

theorem lexicallyNormal_idem {p : Path} (habs : isAbsolute p = true) :
    lexicallyNormal (lexicallyNormal p) = lexicallyNormal p := by
  have hproper := proper_of_mem_normalNames habs
  obtain ⟨-, heq⟩ | ⟨hne, heq | heq⟩ := lexicallyNormal_cases habs
  · rw [heq]
    rfl
  · rw [heq, lexicallyNormal_rooted hne hproper]
  · rw [heq, lexicallyNormal_rooted_slash hne hproper]

/-- What lies below the names of a path begins with its normal form. -/
theorem lexicallyNormal_prefix {p : Path} (habs : isAbsolute p = true) {ns : List Name}
    (hne : ns ≠ []) : lexicallyNormal p <+: rooted (normalNames p ++ ns) := by
  rw [rooted_append, rooted_eq_intercalate hne]
  obtain ⟨hnil, heq⟩ | ⟨-, heq | heq⟩ := lexicallyNormal_cases habs
  · rw [heq, hnil]
    exact ⟨_, rfl⟩
  · rw [heq]
    exact ⟨_, rfl⟩
  · rw [heq]
    exact ⟨_, by rw [List.append_assoc]; rfl⟩

theorem parentPath_rooted {ns : List Name} (hne : ns ≠ []) (h : ∀ n ∈ ns, Proper n) {n : Name}
    (hn : 47 ∉ n) : parentPath (rooted (ns ++ [n])) = rooted ns := by
  have hlast : rooted (ns ++ [n]) = rooted ns ++ [47] ++ n := by
    rw [rooted_append]
    simp [rooted]
  have hdir : (rooted (ns ++ [n])).rdropWhile (· ≠ 47) = rooted ns ++ [47] := by
    rw [hlast, List.rdropWhile, List.reverse_append, List.dropWhile_append_of_pos, List.reverse_append]
    · simp
    · intro x hx
      exact decide_eq_true fun heq => hn (heq ▸ List.mem_reverse.mp hx)
  have hstripped : (rooted ns ++ [47]).rdropWhile (· = 47) = rooted ns := by
    -- the last byte of the last name is no slash
    obtain ⟨ms, m, rfl⟩ : ∃ ms m, ns = ms ++ [m] :=
      ⟨_, _, (List.dropLast_append_getLast hne).symm⟩
    have hm := h m (by simp)
    obtain ⟨front, x, rfl⟩ : ∃ front x, m = front ++ [x] :=
      ⟨_, _, (List.dropLast_append_getLast hm.ne_nil).symm⟩
    have hx : x ≠ 47 := fun heq => hm.noSlash (by simp [heq])
    have hend : rooted (ms ++ [front ++ [x]]) = rooted ms ++ 47 :: front ++ [x] := by
      simp [rooted]
    rw [List.rdropWhile_concat, if_pos (decide_eq_true rfl), hend, List.rdropWhile_concat,
      if_neg (by simp [hx])]
  have hnil : rooted ns ≠ [] := by
    rw [rooted_eq_intercalate hne]
    simp
  unfold parentPath
  simp only [hdir, hstripped, if_neg hnil]

end PosixPath
