import PosixHw.FileManager.Basic

/-!
# The file manager: path, list and cursor of a panel

Enter changes the working directory, the path, the list and the cursor one after the other, and
does not look at whether `chdir`, `getcwd` and `opendir` succeed.  A failing `chdir` is harmless:
the path is then that of the old directory.  A failing `getcwd` may leave anything in the path; and
if `opendir` fails, the path is already another one and the list is still the old one.  After that,
or when a directory has no entry at all, Enter acts on a record that is left over from an earlier
list.

* `Agree p`: the list of `p` is the listing of the directory that its path names, in the file
  system in which it was last listed;
* `Listable s a`: the step `a` does not fall into any of these cases;
* `listing_agrees`: every run of such steps keeps the panels consistent.
-/

namespace PosixHw
namespace FileManager

open Run

variable {D : Type*} {fs : FileSystem D} {p p' : Panel D} {path : Path}

/-- The record of the file `path/n`. -/
def record (fs : FileSystem D) (path n : Path) : File :=
  match fs.stat (join path n) with
  | some st => ⟨n, st.size, st.isDir⟩
  | none => ⟨n, 0, false⟩

/-- No name and no path is cut off when `path` is listed. -/
def Fits (fs : FileSystem D) (path : Path) : Prop :=
  ∀ names, fs.opendir path = some names →
    ∀ n ∈ names, n.length < 256 ∧ (join path n).length < 1024

theorem fileAt_eq_record {n : Path} (hn : n.length < 256) (hj : (join path n).length < 1024) :
    fileAt fs path n = record fs path n := by
  have hname : n.take 255 = n := List.take_of_length_le (by omega)
  have hpath : (join path n).take 1023 = join path n := List.take_of_length_le (by omega)
  unfold fileAt record
  cases hst : fs.stat (join path n) <;> simp only [hname, hpath, hst]

/-- The list of the panel is the listing of the directory named by its path, as of the last time
that the panel was listed. -/
def Agree (p : Panel D) : Prop :=
  ∃ fs names, p.seen = some fs ∧ fs.opendir p.currentPath = some names ∧
    p.list = names.map (record fs p.currentPath)

/-- Path, list and cursor fit together. -/
structure Consistent (p : Panel D) : Prop where
  agree : Agree p
  nonneg : 0 ≤ p.currentFile
  inside : 0 < p.fileCount → p.currentFile < p.fileCount

theorem Consistent.entry_mem (h : Consistent p) (hc : 0 < p.fileCount) : p.entry ∈ p.list :=
  mem_list_of_lt h.nonneg (h.inside hc)

/-- A directory that can be opened is listed under the path that it is opened with. -/
theorem consistent_listFiles {names : List Path} (hn : fs.opendir path = some names)
    (hl : p.list = names.map (fileAt fs path)) (hp : p.currentPath = path)
    (hseen : p.seen = some fs) (hcur : p.currentFile = 0) (hfit : Fits fs path) :
    Consistent p where
  agree := by
    refine ⟨fs, names, hseen, by rwa [hp], ?_⟩
    rw [hl, hp]
    refine List.map_congr_left fun n hmem => ?_
    obtain ⟨h₁, h₂⟩ := hfit names hn n hmem
    exact fileAt_eq_record h₁ h₂
  nonneg := hcur.ge
  inside h := by rwa [hcur]

/-! ### The start -/

/-- The directory in which the program is started has a path, and can be listed. -/
def StartListable (fs : FileSystem D) (cwd : D) : Prop :=
  HasPath fs cwd ∧ (fs.opendir (getcwd fs cwd [])).isSome = true ∧ Fits fs (getcwd fs cwd [])

theorem consistent_start {cwd : D} {s : State D} (h : start fs cwd = some s)
    (hs : StartListable fs cwd) (i : Fin 2) : Consistent (s.panels i) := by
  obtain ⟨q, hq, hcur, -, rfl⟩ := start_cases h
  obtain ⟨-, hopen, hfit⟩ := hs
  rcases listFiles_cases hq with ⟨hn, -⟩ | ⟨names, hn, hl, -, hp, hseen⟩
  · rw [hn] at hopen
    cases hopen
  · exact consistent_listFiles hn hl hp hseen hcur hfit

/-! ### The steps -/

/-- The directory that Enter leads to, and the path that it gives to the active panel. -/
def State.entered (s : State D) : D :=
  changeDir s.fs s.cwd (s.panels s.activePanel).entry.name
def State.target (s : State D) : Path :=
  getcwd s.fs s.entered (s.panels s.activePanel).currentPath

/-- Enter is not pressed on a directory of a panel whose list is empty, and if it changes the path,
then `getcwd` has succeeded and the new path can be opened; nothing is cut off when it is listed. -/
def Listable (s : State D) : Action D → Prop
  | .key .enter => (s.panels s.activePanel).entry.isDir = true →
      0 < (s.panels s.activePanel).fileCount ∧
      (s.target ≠ (s.panels s.activePanel).currentPath →
        HasPath s.fs s.entered ∧ (s.fs.opendir s.target).isSome = true) ∧
      Fits s.fs s.target
  | _ => True

/-- Moving the cursor keeps a panel consistent. -/
theorem Consistent.moved (h : Consistent p) (hm : Moved p p') : Consistent p' where
  agree := by
    obtain ⟨fs, names, hseen, hn, hl⟩ := h.agree
    refine ⟨fs, names, by rw [hm.seen, hseen], by rw [hm.currentPath, hn], ?_⟩
    rw [hm.list, hm.currentPath, hl]
  nonneg := (hm.cursor h.nonneg).1
  inside hc := by
    rw [hm.fileCount] at hc ⊢
    have hlt := h.inside hc
    rcases (hm.cursor h.nonneg).2 with he | he | he <;> omega

/-- Enter keeps a panel consistent if its new path can be opened. -/
theorem Consistent.enter {q : Panel D} (h : Consistent p)
    (hq : listFiles fs { p with currentPath := path } path = some q)
    (hopen : path ≠ p.currentPath → (fs.opendir path).isSome = true) (hfit : Fits fs path) :
    Consistent { q with currentFile := 0, scrollOffset := 0 } := by
  rcases listFiles_cases hq with ⟨hn, rfl⟩ | ⟨names, hn, hl, -, hp, hseen⟩
  · -- the directory could not be opened, so the path is the old one
    have hpath : path = p.currentPath := by
      by_contra hne
      have := hopen hne
      rw [hn] at this
      cases this
    subst hpath
    exact ⟨h.agree, le_rfl, id⟩
  · exact consistent_listFiles hn hl hp hseen rfl hfit

theorem consistent_step {height : ℤ} (s : State D) (a : Action D) (s' : State D)
    (h : ∀ i, Consistent (s.panels i)) (ha : Listable s a) (hs : step height s a = some s') (i) :
    Consistent (s'.panels i) := by
  rcases step_cases hs with ⟨fs, rfl, rfl⟩ | ⟨rfl, rfl⟩ | ⟨k, cwd, q, rfl, -, hq, rfl⟩
  · exact h i
  · exact h i
  · by_cases hi : i = s.activePanel
    · subst hi
      show Consistent (Function.update s.panels s.activePanel q s.activePanel)
      rw [Function.update_self]
      by_cases hd : k = .enter ∧ (s.panels s.activePanel).entry.isDir = true
      · obtain ⟨rfl, hd⟩ := hd
        obtain ⟨rfl, q', hl, rfl⟩ := handleNavigation_enter hq hd
        exact (h s.activePanel).enter hl (fun hne => ((ha hd).2.1 hne).2) (ha hd).2.2
      · exact (h s.activePanel).moved
          (handleNavigation_move hq fun he => Bool.eq_false_iff.2 fun ht => hd ⟨he, ht⟩).2.1
    · show Consistent (Function.update s.panels s.activePanel q i)
      rw [Function.update_of_ne hi]
      exact h i

/-- **Path, list and cursor agree.**  If the starting directory can be listed, then in every state
reached by `Listable` steps, with every file system in between, the list of each panel is the
listing of the directory named by its path as of the last time it was listed, the cursor is on an
entry of it unless there is none, and so is what the next Enter acts on. -/
theorem listing_agrees {cwd : D} {height : ℤ} {s₀ s : State D} {as : List (Action D)}
    (h₀ : start fs cwd = some s₀) (hs : StartListable fs cwd)
    (ha : Along (step height) Listable s₀ as) (h : run (step height) s₀ as = some s) :
    (∀ i, Agree (s.panels i) ∧
        (0 < (s.panels i).fileCount → (s.panels i).entry ∈ (s.panels i).list))
      ∧ (Listable s (.key .enter) → (s.panels s.activePanel).entry.isDir = true →
        (s.panels s.activePanel).entry ∈ (s.panels s.activePanel).list) := by
  have hI : ∀ i, Consistent (s.panels i) :=
    run_invariant_along consistent_step (consistent_start h₀ hs) ha h
  refine ⟨fun i => ⟨(hI i).agree, (hI i).entry_mem⟩, fun he hd => ?_⟩
  exact (hI s.activePanel).entry_mem (he hd).1

/-! ### A small file system -/

/-- The directories `/`, `/a` and `/b`. -/
inductive Dir
  | root
  | a
  | b
  deriving DecidableEq

/-- The names `.`, `..`, `a` and `b`. -/
def dot : Path := [46]
def dotdot : Path := [46, 46]
def nameA : Path := [97]
def nameB : Path := [98]

/-- `/` with the two empty directories `a` and `b`. -/
def sample : Tree Dir where
  root := .root
  child d n :=
    if n = dot then some d
    else if n = dotdot then some .root
    else if d = .root ∧ n = nameA then some .a
    else if d = .root ∧ n = nameB then some .b
    else none
  path
    | .root => [slash]
    | .a => slash :: nameA
    | .b => slash :: nameB
  entries
    | .root => [dot, dotdot, nameA, nameB]
    | _ => [dot, dotdot]

/-- The same directories, but `a` cannot be read. -/
def unreadable : FileSystem Dir :=
  { sample.toFileSystem with readable := fun d => decide (d ≠ .a) }

/-- The keys that lead to the entry `a` of `/` and into it. -/
def enterA : List (Action Dir) := [.key .down, .key .down, .key .enter]

theorem sample_fits (path : Path) (h : path.length < 1000) : Fits sample.toFileSystem path := by
  intro names hn n hmem
  obtain ⟨d, -, rfl⟩ := FileSystem.mem_opendir hn
  have hlen : n.length ≤ 2 := by
    have hall : ∀ d, ∀ n ∈ sample.entries d, n.length ≤ 2 := by
      intro d
      cases d <;> decide
    exact hall d n hmem
  rw [length_join]
  omega

theorem sample_hasPath (d : Dir) : HasPath sample.toFileSystem d := by
  refine ⟨_, rfl, ?_⟩
  cases d <;> decide

theorem listable_enterA {s₀ : State Dir} (h₀ : start sample.toFileSystem .root = some s₀) :
    Along (step 21) Listable s₀ enterA := by
  cases h₀
  refine ⟨trivial, fun t ht => ?_⟩
  cases ht
  refine ⟨trivial, fun t ht => ?_⟩
  cases ht
  refine ⟨fun _ => ⟨by decide, fun _ => ⟨sample_hasPath _, by decide⟩, sample_fits _ (by decide)⟩,
    fun t ht => trivial⟩

theorem listing_agrees_enterA :
    ∃ s₀ s, start sample.toFileSystem .root = some s₀ ∧ run (step 21) s₀ enterA = some s ∧
      (s.panels 0).currentPath = slash :: nameA ∧ Agree (s.panels 0) := by
  obtain ⟨s₀, h₀⟩ : ∃ s₀, start sample.toFileSystem .root = some s₀ := ⟨_, rfl⟩
  obtain ⟨s, h⟩ : ∃ s, run (step 21) s₀ enterA = some s := by
    cases h₀
    exact ⟨_, rfl⟩
  have hs : StartListable sample.toFileSystem .root :=
    ⟨sample_hasPath _, by decide, sample_fits _ (by decide)⟩
  have hA := (listing_agrees h₀ hs (listable_enterA h₀) h).1 0
  refine ⟨s₀, s, h₀, h, ?_, hA.1⟩
  cases h₀
  cases h
  decide

/-- Enter on the directory `a` that can be entered but not read: the path is the new one, the list
the old one. -/
theorem listing_stale :
    ∃ s₀ s, start unreadable .root = some s₀ ∧ run (step 21) s₀ enterA = some s ∧
      (s.panels 0).currentPath = slash :: nameA ∧
      (s.panels 0).list.map File.name = [dot, dotdot, nameA, nameB] ∧ ¬ Agree (s.panels 0) := by
  obtain ⟨s₀, h₀⟩ : ∃ s₀, start unreadable .root = some s₀ := ⟨_, rfl⟩
  obtain ⟨s, h⟩ : ∃ s, run (step 21) s₀ enterA = some s := by
    cases h₀
    exact ⟨_, rfl⟩
  have hpath : (s.panels 0).currentPath = slash :: nameA := by
    cases h₀
    cases h
    decide
  have hseen : (s.panels 0).seen = some unreadable := by
    cases h₀
    cases h
    rfl
  refine ⟨s₀, s, h₀, h, hpath, ?_, ?_⟩
  · cases h₀
    cases h
    decide
  · rintro ⟨fs, names, hfs, hn, -⟩
    rw [hseen, Option.some.injEq] at hfs
    rw [← hfs, hpath, show unreadable.opendir (slash :: nameA) = none by decide] at hn
    cases hn

end FileManager
end PosixHw
