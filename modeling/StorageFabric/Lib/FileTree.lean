import StorageFabric.Lib.Table

/-!
A tree of directories and files.

A path is the list of the names on the way to a node, and the empty path is the directory
that everything is in. What is below a node is only there while the node is a directory;
a tree carries the proof of that (`closed`). The operations are those of a file system,
each of them refused where the system refuses it.
-/

inductive FileNode (α : Type)
  | file (bytes : List α)
  | directory
  deriving DecidableEq

structure FileTree (N α : Type) [DecidableEq N] where
  nodes : Table (List N) (FileNode α) := ∅
  closed : ∀ p n, p ++ [n] ∈ nodes → p ≠ [] → nodes.lookup p = some .directory := by simp

namespace FileTree

variable {N α : Type} [DecidableEq N]

def node (t : FileTree N α) (p : List N) : Option (FileNode α) :=
  if p = [] then some .directory else t.nodes.lookup p

@[simp] theorem node_nil (t : FileTree N α) : t.node [] = some .directory := if_pos rfl

theorem node_of_ne_nil {t : FileTree N α} {p : List N} (h : p ≠ []) : t.node p = t.nodes.lookup p :=
  if_neg h

theorem node_snoc (t : FileTree N α) (p : List N) (n : N) :
    t.node (p ++ [n]) = t.nodes.lookup (p ++ [n]) := node_of_ne_nil (by simp)

theorem node_parent {t : FileTree N α} {p : List N} {n : N} (h : p ++ [n] ∈ t.nodes) :
    t.node p = some .directory := by
  by_cases hp : p = []
  · rw [hp, node_nil]
  · rw [node_of_ne_nil hp, t.closed p n h hp]

def content (t : FileTree N α) (p : List N) : Option (List α) :=
  match t.node p with
  | some (.file bs) => some bs
  | _ => none

theorem content_eq_some {t : FileTree N α} {p : List N} {bs : List α} :
    t.content p = some bs ↔ t.node p = some (.file bs) := by
  unfold content
  cases h : t.node p with
  | none => simp
  | some v => cases v <;> simp

theorem content_congr {t t' : FileTree N α} {p : List N} (h : t'.node p = t.node p) :
    t'.content p = t.content p := by
  rw [content, content, h]

theorem node_empty (p : List N) :
    ({} : FileTree N α).node p = if p = [] then some .directory else none := by
  unfold node
  split <;> rfl

@[simp] theorem content_empty (p : List N) : ({} : FileTree N α).content p = none := by
  rw [content, node_empty]
  by_cases hp : p = []
  · rw [if_pos hp]
  · rw [if_neg hp]

def files (t : FileTree N α) : List (List N) := t.nodes.keys.filter fun p => (t.content p).isSome

theorem nodup_files (t : FileTree N α) : t.files.Nodup := t.nodes.nodupKeys.filter _

theorem mem_files {t : FileTree N α} {p : List N} : p ∈ t.files ↔ (t.content p).isSome = true := by
  rw [files, List.mem_filter]
  refine and_iff_right_of_imp fun h => ?_
  obtain ⟨bs, hbs⟩ := Option.isSome_iff_exists.mp h
  have hnode := content_eq_some.mp hbs
  by_cases hp : p = []
  · rw [hp, node_nil] at hnode
    cases hnode
  · rw [node_of_ne_nil hp] at hnode
    exact AList.mem_keys.mpr (AList.lookup_isSome.mp (by rw [hnode]; rfl))

/-! ### Making and taking away nodes -/

/-- A node in a directory. What is replaced is no directory, unless by a directory. -/
def insert (t : FileTree N α) (p : List N) (n : N) (v : FileNode α)
    (hparent : t.node p = some .directory)
    (hkeep : v = .directory ∨ t.node (p ++ [n]) ≠ some .directory) : FileTree N α where
  nodes := t.nodes.insert (p ++ [n]) v
  closed := by
    intro q m hq hne
    rw [AList.lookup_insert_eq]
    by_cases hqp : q = p ++ [n]
    · have hmem : q ++ [m] ∈ t.nodes := (AList.mem_insert _).mp hq |>.resolve_left fun heq => by
        have := congrArg List.length (heq.trans hqp.symm)
        simp at this
      obtain hv | hnot := hkeep
      · rw [if_pos hqp, hv]
      · exact absurd (hqp ▸ node_parent hmem) hnot
    · rw [if_neg hqp]
      obtain heq | hmem := (AList.mem_insert _).mp hq
      · obtain rfl : q = p := (List.append_inj' heq rfl).1
        rw [← node_of_ne_nil hne, hparent]
      · exact t.closed q m hmem hne

theorem node_insert (t : FileTree N α) (p : List N) (n : N) (v : FileNode α)
    (hparent : t.node p = some .directory)
    (hkeep : v = .directory ∨ t.node (p ++ [n]) ≠ some .directory) (q : List N) :
    (t.insert p n v hparent hkeep).node q = if q = p ++ [n] then some v else t.node q := by
  by_cases hq : q = []
  · subst hq
    simp
  · rw [node_of_ne_nil hq, node_of_ne_nil hq]
    exact AList.lookup_insert_eq (p ++ [n]) q v t.nodes

def Childless (t : FileTree N α) (p : List N) : Prop := ∀ q ∈ t.nodes.keys, q ≠ [] → q.dropLast ≠ p

instance (t : FileTree N α) (p : List N) : Decidable (t.Childless p) :=
  inferInstanceAs (Decidable (∀ q ∈ t.nodes.keys, q ≠ [] → q.dropLast ≠ p))

theorem childless_of_node {t : FileTree N α} {p : List N} (h : t.node p ≠ some .directory) :
    t.Childless p := by
  rintro q hq hne rfl
  refine h (node_parent (n := q.getLast hne) ?_)
  rw [List.dropLast_append_getLast hne]
  exact AList.mem_keys.mp hq

def remove (t : FileTree N α) (p : List N) : Option (FileTree N α) :=
  if h : t.Childless p then
    some
      { nodes := t.nodes.erase p
        closed := by
          intro q m hq hne
          obtain ⟨-, hmem⟩ := AList.mem_erase.mp hq
          have hqp : q ≠ p := fun heq =>
            h (q ++ [m]) (AList.mem_keys.mpr hmem) (by simp) (by simpa using heq)
          rw [AList.lookup_erase_eq, if_neg hqp, t.closed q m hmem hne] }
  else none

theorem remove_spec {t : FileTree N α} {p : List N} (h : t.node p ≠ some .directory) :
    ∃ t', t.remove p = some t' ∧ ∀ q, t'.node q = if q = p then none else t.node q := by
  refine ⟨_, dif_pos (childless_of_node h), fun q => ?_⟩
  by_cases hq : q = []
  · have hne : q ≠ p := fun heq => h (by rw [← heq, hq, node_nil])
    rw [if_neg hne, hq, node_nil, node_nil]
  · rw [node_of_ne_nil hq, node_of_ne_nil hq]
    exact AList.lookup_erase_eq p q t.nodes

variable [DecidableEq α]

def write (t : FileTree N α) (p : List N) (n : N) (bs : List α) : Option (FileTree N α) :=
  if h : t.node p = some .directory ∧ t.node (p ++ [n]) ≠ some .directory then
    some (t.insert p n (.file bs) h.1 (.inr h.2))
  else none

theorem write_spec {t : FileTree N α} {p : List N} {n : N} (hparent : t.node p = some .directory)
    (hnode : t.node (p ++ [n]) ≠ some .directory) (bs : List α) :
    ∃ t', t.write p n bs = some t' ∧
      ∀ q, t'.node q = if q = p ++ [n] then some (.file bs) else t.node q :=
  ⟨_, dif_pos ⟨hparent, hnode⟩, node_insert t p n _ hparent (.inr hnode)⟩

def rename (t : FileTree N α) (p : List N) (a b : N) : Option (FileTree N α) :=
  match t.content (p ++ [a]), t.remove (p ++ [a]) with
  | some bs, some t' => t'.write p b bs
  | _, _ => none

theorem rename_spec {t : FileTree N α} {p : List N} {a b : N} {bs : List α}
    (ha : t.node (p ++ [a]) = some (.file bs)) (hb : t.node (p ++ [b]) ≠ some .directory) :
    ∃ t', t.rename p a b = some t' ∧ ∀ q, t'.node q =
      if q = p ++ [b] then some (.file bs) else if q = p ++ [a] then none else t.node q := by
  have hparent : t.node p = some .directory := by
    refine node_parent (n := a) (AList.lookup_isSome.mp ?_)
    rw [← node_snoc, ha]
    rfl
  obtain ⟨u, hu, hnode⟩ := remove_spec (t := t) (p := p ++ [a]) (by rw [ha]; simp)
  have hdirectory : u.node p = some .directory := by
    rw [hnode, if_neg (by simp), hparent]
  have htarget : u.node (p ++ [b]) ≠ some .directory := by
    rw [hnode]
    split
    · simp
    · exact hb
  obtain ⟨t', ht', hnode'⟩ := write_spec hdirectory htarget bs
  refine ⟨t', ?_, fun q => ?_⟩
  · rw [rename, content_eq_some.mpr ha, hu]
    exact ht'
  · rw [hnode', hnode]

/-- Make the directories on the way along a path, from `done` on, until there is a file. -/
def makeDirectories : FileTree N α → List N → List N → FileTree N α
  | t, _, [] => t
  | t, done, n :: rest =>
      if h : t.node done = some .directory ∧ t.node (done ++ [n]) = none then
        makeDirectories (t.insert done n .directory h.1 (.inl rfl)) (done ++ [n]) rest
      else if t.node (done ++ [n]) = some .directory then makeDirectories t (done ++ [n]) rest
      else t

/-- Where no file is in the way, the directories are there afterwards, and everything else is
as it was. -/
theorem makeDirectories_spec {t : FileTree N α} {done rest : List N}
    (hdone : t.node done = some .directory)
    (hfree : ∀ p, p <+: rest → t.content (done ++ p) = none) :
    (∀ p, p <+: rest → (t.makeDirectories done rest).node (done ++ p) = some .directory) ∧
      ∀ q, (∀ p, p <+: rest → q ≠ done ++ p) → (t.makeDirectories done rest).node q = t.node q := by
  induction rest generalizing t done with
  | nil =>
      refine ⟨fun p hp => ?_, fun _ _ => rfl⟩
      rw [List.prefix_nil.mp hp, List.append_nil]
      exact hdone
  | cons n rest ih =>
      -- The next name is made, or it is a directory already; either way the rest goes on below it.
      obtain ⟨u, hmake, hnode⟩ : ∃ u : FileTree N α,
          t.makeDirectories done (n :: rest) = u.makeDirectories (done ++ [n]) rest ∧
          ∀ q, u.node q = if q = done ++ [n] then some .directory else t.node q := by
        cases hnext : t.node (done ++ [n]) with
        | none =>
            exact ⟨_, dif_pos ⟨hdone, hnext⟩, node_insert t done n _ hdone (.inl rfl)⟩
        | some v =>
            cases v with
            | file bs =>
                have hnone := hfree [n] (List.prefix_append [n] rest)
                rw [content_eq_some.mpr hnext] at hnone
                cases hnone
            | directory =>
                refine ⟨t, ?_, fun q => ?_⟩
                · rw [makeDirectories, dif_neg (by simp [hnext]), if_pos hnext]
                · split
                  · next h => rw [h, hnext]
                  · rfl
      have hdone' : u.node (done ++ [n]) = some .directory := by rw [hnode, if_pos rfl]
      have hfree' : ∀ p, p <+: rest → u.content (done ++ [n] ++ p) = none := by
        intro p hp
        by_cases hnil : p = []
        · rw [hnil, List.append_nil, content, hdone']
        · have hother : done ++ [n] ++ p ≠ done ++ [n] := by simpa using hnil
          have hold := hfree (n :: p) (by simpa using hp)
          rw [content_congr (t := t) (by rw [hnode, if_neg hother]), List.append_assoc]
          exact hold
      obtain ⟨hmade, hsame⟩ := ih hdone' hfree'
      rw [hmake]
      refine ⟨fun p hp => ?_, fun q hq => ?_⟩
      · cases p with
        | nil =>
            rw [List.append_nil, hsame done fun p _ heq => ?_, hnode, if_neg (by simp), hdone]
            have := congrArg List.length heq
            simp at this
        | cons m p =>
            obtain ⟨rfl, hrest⟩ := List.cons_prefix_cons.mp hp
            have hat := hmade p hrest
            rwa [← List.append_cons] at hat
      · have hne : q ≠ done ++ [n] := hq [n] (List.prefix_append [n] rest)
        rw [hsame q fun p hp => ?_, hnode, if_neg hne]
        rw [← List.append_cons]
        exact hq (n :: p) (by simpa using hp)

end FileTree
