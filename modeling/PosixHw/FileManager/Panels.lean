import PosixHw.FileManager.Listing

/-!
# The file manager: are the panels independent?

Both panels share the working directory of the process, and `chdir` with the name of an entry is
relative to it, not to the path of the panel.  So Enter leads from the directory `P` of the active
panel to `P/n` only while the working directory is `P`; after an Enter in the other panel it is
that panel's directory.

* `solo`: one panel with a working directory of its own;
* `typedIn i a ks`: those of the keys `ks` that are typed while the panel `i` is active;
* `InPlace s a`: if `a` is Enter on a directory, the working directory is that of the active panel,
  and the directory that it leads to has a path that fits into the buffer;
* `panels_independent`: every run of such steps leads each panel where it would go alone.
-/

namespace PosixHw
namespace FileManager

open Run

variable {D : Type*} {fs : FileSystem D} {height : ℤ} {cwd : D} {p p' : Panel D}

/-- One panel alone, from the working directory `cwd`. -/
def solo (fs : FileSystem D) (height : ℤ) (cwd : D) (p : Panel D) (ks : List Key) :
    Option (D × Panel D) :=
  run (fun x k => handleNavigation fs height x.1 x.2 k) (cwd, p) ks

/-- The keys, of those typed from the moment when the panel `a` is active, that the panel `i`
receives. -/
def typedIn (i : Fin 2) : Fin 2 → List Key → List Key
  | _, [] => []
  | a, .tab :: ks => typedIn i (1 - a) ks
  | a, k :: ks => if i = a then k :: typedIn i a ks else typedIn i a ks

/-- The path of a directory that `getcwd` returns in the buffer of a panel. -/
def Named (fs : FileSystem D) (d : D) (path : Path) : Prop :=
  fs.getcwd d = some path ∧ path.length < 1024

/-- If the step is Enter on a directory `n` of the active panel, with the path `P`, then the working
directory is `P`, and the directory that `n` leads to has a path that fits. -/
def InPlace (s : State D) : Action D → Prop
  | .key .enter => (s.panels s.activePanel).entry.isDir = true →
      Named s.fs s.cwd (s.panels s.activePanel).currentPath ∧
      ∀ d, s.fs.chdir s.cwd (s.panels s.activePanel).entry.name = some d →
        ∃ path, Named s.fs d path
  | _ => True

/-- Two directories with one path are the same. -/
theorem Named.eq (hfs : fs.Accessible) {d d' : D} {path : Path} (h : Named fs d path)
    (h' : fs.getcwd d' = some path) : d = d' := by
  have hlt : path.length < pathMax := by
    have := h.2
    simp only [pathMax]
    omega
  have hd := hfs.find_getcwd h.1 hlt
  rw [hfs.find_getcwd h' hlt, Option.some.injEq] at hd
  exact hd.symm

theorem Named.getcwd {d : D} {path : Path} (h : Named fs d path) (buf : Path) :
    getcwd fs d buf = path := by
  unfold FileManager.getcwd
  rw [h.1]
  exact if_pos h.2

theorem changeDir_eq (fs : FileSystem D) (cwd : D) (n : Path) :
    changeDir fs cwd n = (fs.chdir cwd n).getD cwd := by
  simp only [changeDir]
  split_ifs with h
  · rw [h]
  · rfl

/-- After an Enter in its place, the working directory is again that of the panel. -/
theorem named_changeDir {n path : Path} (hcwd : Named fs cwd path)
    (hd : ∀ d, fs.chdir cwd n = some d → ∃ q, Named fs d q) (buf : Path) :
    Named fs (changeDir fs cwd n) (getcwd fs (changeDir fs cwd n) buf) := by
  rw [changeDir_eq]
  cases h : fs.chdir cwd n with
  | none =>
    show Named fs cwd (getcwd fs cwd buf)
    rwa [hcwd.getcwd]
  | some d =>
    obtain ⟨q, hq⟩ := hd d h
    show Named fs d (getcwd fs d buf)
    rwa [hq.getcwd]

/-! ### Both panels -/

/-- The panels of `s` are those of the two lone sessions `x`, each of which is in the directory that
its panel shows; or nothing can be entered, because the working directory has no path that fits. -/
structure Lockstep (s : State D) (x : Fin 2 → D × Panel D) : Prop where
  panels : ∀ i, (x i).2 = s.panels i
  named : (∀ path, ¬ Named s.fs s.cwd path) ∨
    ∀ i, s.fs.getcwd (x i).1 = some (s.panels i).currentPath

theorem lockstep_start {s : State D} (h : start fs cwd = some s) :
    Lockstep s fun i => (cwd, s.panels i) := by
  obtain ⟨q, -, -, hq, rfl⟩ := start_cases h
  refine ⟨fun i => rfl, ?_⟩
  by_cases hn : ∃ path, Named fs cwd path
  · obtain ⟨path, hpath⟩ := hn
    refine Or.inr fun i => ?_
    show fs.getcwd cwd = some q.currentPath
    rw [hq, hpath.getcwd, hpath.1]
  · exact Or.inl (not_exists.1 hn)

/-- A key of the active panel: its lone session makes the same step, the other one none. -/
theorem lockstep_key {s : State D} {x : Fin 2 → D × Panel D} {k : Key} {d : D} {q : Panel D}
    (hfs : s.fs.Accessible) (h : Lockstep s x) (hP : InPlace s (.key k))
    (hk : handleNavigation s.fs height s.cwd (s.panels s.activePanel) k = some (d, q)) :
    ∃ c, handleNavigation s.fs height (x s.activePanel).1 (x s.activePanel).2 k = some (c, q) ∧
      Lockstep { s with cwd := d, panels := Function.update s.panels s.activePanel q }
        (Function.update x s.activePanel (c, q)) := by
  rw [h.panels]
  have hpanels : ∀ c i, (Function.update x s.activePanel (c, q) i).2
      = Function.update s.panels s.activePanel q i := by
    intro c i
    by_cases hi : i = s.activePanel
    · subst hi
      rw [Function.update_self, Function.update_self]
    · rw [Function.update_of_ne hi, Function.update_of_ne hi, h.panels]
  by_cases hdir : k = .enter ∧ (s.panels s.activePanel).entry.isDir = true
  · obtain ⟨rfl, hdir⟩ := hdir
    obtain ⟨hcwd, hnext⟩ := hP hdir
    obtain ⟨hd, q', hq', rfl⟩ := handleNavigation_enter hk hdir
    have hpath := currentPath_listFiles hq'
    have hx := h.named.resolve_left fun hno => hno _ hcwd
    rw [← hcwd.eq hfs (hx s.activePanel)]
    refine ⟨d, hk, hpanels d, Or.inr fun i => ?_⟩
    by_cases hi : i = s.activePanel
    · subst hi
      have hnamed := named_changeDir hcwd hnext (s.panels s.activePanel).currentPath
      rw [← hd, ← hpath] at hnamed
      simpa only [Function.update_self] using hnamed.1
    · simpa only [Function.update_of_ne hi] using hx i
  · have hk' : k = .enter → (s.panels s.activePanel).entry.isDir = false := fun he =>
      Bool.eq_false_iff.2 fun ht => hdir ⟨he, ht⟩
    obtain ⟨rfl, hm, hall⟩ := handleNavigation_move hk hk'
    refine ⟨(x s.activePanel).1, hall _, hpanels _, h.named.imp id fun hx i => ?_⟩
    by_cases hi : i = s.activePanel
    · subst hi
      simpa only [Function.update_self, hm.currentPath] using hx s.activePanel
    · simpa only [Function.update_of_ne hi] using hx i

/-- The lone sessions keep up with a run. -/
theorem lockstep_run {s s' : State D} {x : Fin 2 → D × Panel D} {ks : List Key}
    (hfs : s.fs.Accessible) (h : Lockstep s x)
    (hP : Along (step height) InPlace s (ks.map .key))
    (hrun : run (step height) s (ks.map .key) = some s') (i : Fin 2) :
    ∃ d, solo s.fs height (x i).1 (x i).2 (typedIn i s.activePanel ks)
      = some (d, s'.panels i) := by
  induction ks generalizing s x with
  | nil =>
    cases hrun
    exact ⟨(x i).1, by rw [← h.panels]; rfl⟩
  | cons k ks ih =>
    obtain ⟨t, ht, hrun⟩ := run_cons_eq_some.1 hrun
    have hP' := hP.2 t ht
    rcases step_cases ht with ⟨fs, hk, -⟩ | ⟨hk, rfl⟩ | ⟨k', d, q, hk, htab, hq, rfl⟩
    · cases hk
    · cases hk
      exact ih (s := { s with activePanel := 1 - s.activePanel }) hfs ⟨h.panels, h.named⟩ hP' hrun
    · cases hk
      obtain ⟨c, hc, hlock⟩ := lockstep_key hfs h hP.1 hq
      obtain ⟨e, he⟩ := ih (s := { s with cwd := d, panels := _ }) hfs hlock hP' hrun
      refine ⟨e, ?_⟩
      have htyped : typedIn i s.activePanel (k :: ks) =
          if i = s.activePanel then k :: typedIn i s.activePanel ks
          else typedIn i s.activePanel ks := by
        cases k with
        | tab => exact absurd rfl htab
        | _ => rfl
      rw [htyped]
      split_ifs with hi
      · subst hi
        rw [Function.update_self] at he
        exact run_cons_eq_some.2 ⟨_, hc, he⟩
      · rwa [Function.update_of_ne hi] at he

/-! ### Where Enter leads -/

/-- A panel with entries shows the directory that its path names. -/
structure Shown (fs : FileSystem D) (p : Panel D) : Prop where
  nonneg : 0 ≤ p.currentFile
  inside : 0 < p.fileCount → p.currentFile < p.fileCount
  list : 0 < p.fileCount → ∃ d, fs.find p.currentPath = some d ∧
    p.list = (fs.entries d).map (fileAt fs p.currentPath)

theorem Named.find (hfs : fs.Accessible) {d : D} {path : Path} (h : Named fs d path) :
    fs.find path = some d :=
  hfs.find_getcwd h.1 (by have := h.2; simp only [pathMax]; omega)

/-- Listing a directory by its path shows it. -/
theorem listFiles_named (hfs : fs.Accessible) {d : D} {path : Path} {q : Panel D}
    (hd : Named fs d path) (hq : listFiles fs { p with currentPath := path } path = some q) :
    q.currentPath = path ∧ q.list = (fs.entries d).map (fileAt fs path) := by
  rcases listFiles_cases hq with ⟨hn, -⟩ | ⟨names, hn, hl, -, hp, -⟩
  · rw [hfs.opendir_isSome (hd.find hfs)] at hn
    cases hn
  · rw [hfs.opendir_isSome (hd.find hfs), Option.some.injEq] at hn
    exact ⟨hp, by rw [hl, hn]⟩

theorem shown_start {s : State D} (h : start fs cwd = some s) (i : Fin 2) :
    Shown fs (s.panels i) := by
  obtain ⟨q, hq, hcur, -, rfl⟩ := start_cases h
  refine ⟨hcur.ge, fun hc => by rwa [hcur], fun hc => ?_⟩
  rcases listFiles_cases hq with ⟨-, rfl⟩ | ⟨names, hn, hl, -, hp, -⟩
  · exact absurd hc (lt_irrefl 0)
  · obtain ⟨d, hd, rfl⟩ := FileSystem.mem_opendir hn
    rw [hp]
    exact ⟨d, hd, hl⟩

theorem Shown.moved (h : Shown fs p) (hm : Moved p p') : Shown fs p' where
  nonneg := (hm.cursor h.nonneg).1
  inside hc := by
    rw [hm.fileCount] at hc ⊢
    have hlt := h.inside hc
    rcases (hm.cursor h.nonneg).2 with he | he | he <;> omega
  list hc := by
    rw [hm.fileCount] at hc
    rw [hm.currentPath, hm.list]
    exact h.list hc

/-- A directory among the entries of a panel is what `chdir` with its name leads to, if the working
directory is that of the panel. -/
theorem chdir_entry (hfs : fs.Accessible) (h : Shown fs p) (hc : 0 < p.fileCount)
    (hdir : p.entry.isDir = true) (hcwd : Named fs cwd p.currentPath)
    (hlen : (join p.currentPath p.entry.name).length < 1024) :
    ∃ d, fs.chdir cwd p.entry.name = some d ∧
      fs.find (join p.currentPath p.entry.name) = some d := by
  obtain ⟨d₀, hd₀, hl⟩ := h.list hc
  obtain rfl : cwd = d₀ := Option.some.inj ((hcwd.find hfs).symm.trans hd₀)
  have hmem := mem_list_of_lt h.nonneg (h.inside hc)
  rw [hl] at hmem
  obtain ⟨n, hn, he⟩ := List.mem_map.1 hmem
  obtain ⟨hne, hslash, hn255⟩ := hfs.entry_name hn
  have hname : p.entry.name = n := by
    rw [← he]
    unfold fileAt
    split <;> exact List.take_of_length_le (by omega)
  rw [hname] at hlen ⊢
  have hchdir := hfs.chdir_eq hcwd.1 hne hslash (by simp only [pathMax]; omega)
  rw [hchdir]
  rw [← he, fileAt, List.take_of_length_le (show (join p.currentPath n).length ≤ 1023 by omega)]
    at hdir
  split at hdir
  · rename_i st hst
    obtain ⟨d, hd⟩ := Option.isSome_iff_exists.1 (hfs.find_of_stat hst hdir)
    exact ⟨d, hd, hd⟩
  · cases hdir

/-- Enter in its place leads the panel from `P` to `P/n`, if this path is not cut off. -/
theorem enter_leads {s s' : State D} (hfs : s.fs.Accessible)
    (h : Shown s.fs (s.panels s.activePanel)) (hP : InPlace s (.key .enter))
    (hlen : (join (s.panels s.activePanel).currentPath
      (s.panels s.activePanel).entry.name).length < 1024)
    (hs : step height s (.key .enter) = some s') (hc : 0 < (s.panels s.activePanel).fileCount)
    (hdir : (s.panels s.activePanel).entry.isDir = true) :
    ∃ d, s.fs.find (join (s.panels s.activePanel).currentPath
          (s.panels s.activePanel).entry.name) = some d ∧
      s.fs.find (s'.panels s.activePanel).currentPath = some d ∧
      (s'.panels s.activePanel).list =
        (s.fs.entries d).map (fileAt s.fs (s'.panels s.activePanel).currentPath) := by
  obtain ⟨hcwd, hnext⟩ := hP hdir
  obtain ⟨d, hd, hfind⟩ := chdir_entry hfs h hc hdir hcwd hlen
  obtain ⟨path, hpath⟩ := hnext d hd
  refine ⟨d, hfind, ?_⟩
  rcases step_cases hs with ⟨_, hk, -⟩ | ⟨hk, -⟩ | ⟨k, cwd, q, hk, -, hq, rfl⟩
  · cases hk
  · cases hk
  · cases hk
    obtain ⟨rfl, q', hl, rfl⟩ := handleNavigation_enter hq hdir
    simp only [Function.update_self]
    rw [changeDir_eq, hd, Option.getD_some, hpath.getcwd] at hl
    obtain ⟨hp, hlist⟩ := listFiles_named hfs hpath hl
    refine ⟨by rw [hp]; exact hpath.find hfs, ?_⟩
    rw [hp]
    exact hlist

theorem shown_step {s s' : State D} {k : Key} (hfs : s.fs.Accessible)
    (h : ∀ i, Shown s.fs (s.panels i)) (hP : InPlace s (.key k))
    (hs : step height s (.key k) = some s') :
    s'.fs = s.fs ∧ ∀ i, Shown s.fs (s'.panels i) := by
  rcases step_cases hs with ⟨_, hk, -⟩ | ⟨-, rfl⟩ | ⟨k', cwd, q, hk, -, hq, rfl⟩
  · cases hk
  · exact ⟨rfl, h⟩
  · cases hk
    refine ⟨rfl, fun i => ?_⟩
    by_cases hi : i = s.activePanel
    · subst hi
      simp only [Function.update_self]
      by_cases hd : k = .enter ∧ (s.panels s.activePanel).entry.isDir = true
      · obtain ⟨rfl, hd⟩ := hd
        obtain ⟨hcwd, hnext⟩ := hP hd
        obtain ⟨rfl, q', hl, rfl⟩ := handleNavigation_enter hq hd
        have hnamed := named_changeDir hcwd hnext (s.panels s.activePanel).currentPath
        obtain ⟨hp, hlist⟩ := listFiles_named hfs hnamed hl
        refine ⟨le_rfl, id, fun _ => ⟨changeDir s.fs s.cwd (s.panels s.activePanel).entry.name, ?_⟩⟩
        show s.fs.find q'.currentPath = _ ∧ q'.list = _
        rw [hlist, hp]
        exact ⟨hnamed.find hfs, rfl⟩
      · exact (h s.activePanel).moved
          (handleNavigation_move hq fun he => Bool.eq_false_iff.2 fun ht => hd ⟨he, ht⟩).2.1
    · simp only [Function.update_of_ne hi]
      exact h i

theorem shown_run {s s' : State D} {ks : List Key} (hfs : s.fs.Accessible)
    (h : ∀ i, Shown s.fs (s.panels i)) (hP : Along (step height) InPlace s (ks.map .key))
    (hrun : run (step height) s (ks.map .key) = some s') :
    s'.fs = s.fs ∧ ∀ i, Shown s.fs (s'.panels i) := by
  induction ks generalizing s with
  | nil => cases hrun; exact ⟨rfl, h⟩
  | cons k ks ih =>
    obtain ⟨t, ht, hrun⟩ := run_cons_eq_some.1 hrun
    obtain ⟨hfs', ht'⟩ := shown_step hfs h hP.1 ht
    rw [← hfs'] at hfs ht' ⊢
    exact ih hfs ht' (hP.2 t ht) hrun

/-- **The panels are independent** for as long as every Enter on a directory is pressed while the
working directory is that of the active panel.  Each panel is then as it would be after its own keys
alone, and the next Enter leads from `P` to `P/n`, if this path is not cut off. -/
theorem panels_independent {s₀ s : State D} {ks : List Key} (hfs : fs.Accessible)
    (h₀ : start fs cwd = some s₀) (hP : Along (step height) InPlace s₀ (ks.map .key))
    (h : run (step height) s₀ (ks.map .key) = some s) :
    (∀ i, ∃ d, solo fs height cwd (s₀.panels i) (typedIn i 0 ks) = some (d, s.panels i)) ∧
    ∀ s', InPlace s (.key .enter) →
      (join (s.panels s.activePanel).currentPath (s.panels s.activePanel).entry.name).length
        < 1024 → step height s (.key .enter) = some s' →
      0 < (s.panels s.activePanel).fileCount → (s.panels s.activePanel).entry.isDir = true →
      ∃ d, fs.find (join (s.panels s.activePanel).currentPath
            (s.panels s.activePanel).entry.name) = some d ∧
        fs.find (s'.panels s.activePanel).currentPath = some d ∧
        (s'.panels s.activePanel).list =
          (fs.entries d).map (fileAt fs (s'.panels s.activePanel).currentPath) := by
  obtain ⟨q, -, -, -, hq⟩ := start_cases h₀
  have hfs₀ : s₀.fs = fs := by rw [hq]
  have hactive : s₀.activePanel = 0 := by rw [hq]
  have hshown : ∀ i, Shown s₀.fs (s₀.panels i) := fun i => hfs₀ ▸ shown_start h₀ i
  constructor
  · intro i
    obtain ⟨d, hd⟩ := lockstep_run (hfs₀ ▸ hfs) (lockstep_start h₀) hP h i
    rw [hfs₀, hactive] at hd
    exact ⟨d, hd⟩
  · intro s' he hlen hs' hc hdir
    obtain ⟨hfs', hs⟩ := shown_run (hfs₀ ▸ hfs) hshown hP h
    have hfs'' : s.fs = fs := hfs'.trans hfs₀
    rw [hfs₀, ← hfs''] at hs
    rw [← hfs''] at hfs ⊢
    exact enter_leads hfs (hs _) he hlen hs' hc hdir

theorem sample_accessible : sample.toFileSystem.Accessible :=
  Tree.accessible (by intro d; cases d <;> decide) (by intro d; cases d <;> decide)

/-- Into `a` in the first panel, then the second panel. -/
def enterThenTab : List Key := [.down, .down, .enter, .tab]

theorem panels_independent_enterThenTab :
    ∃ s₀ s, start sample.toFileSystem .root = some s₀ ∧
      run (step 21) s₀ (enterThenTab.map .key) = some s ∧ s.activePanel = 1 ∧
      ∃ d, solo sample.toFileSystem 21 .root (s₀.panels 0) [.down, .down, .enter]
        = some (d, s.panels 0) := by
  obtain ⟨s₀, h₀⟩ : ∃ s₀, start sample.toFileSystem .root = some s₀ := ⟨_, rfl⟩
  obtain ⟨s, h⟩ : ∃ s, run (step 21) s₀ (enterThenTab.map .key) = some s := by
    cases h₀
    exact ⟨_, rfl⟩
  have hP : Along (step 21) InPlace s₀ (enterThenTab.map .key) := by
    cases h₀
    refine ⟨trivial, fun t ht => ?_⟩
    cases ht
    refine ⟨trivial, fun t ht => ?_⟩
    cases ht
    refine ⟨fun _ => ⟨⟨rfl, by decide⟩, fun d hd => ?_⟩,
      fun t ht => ⟨trivial, fun _ _ => trivial⟩⟩
    exact ⟨sample.path d, rfl, by cases d <;> decide⟩
  refine ⟨s₀, s, h₀, h, ?_, (panels_independent sample_accessible h₀ hP h).1 0⟩
  cases h₀
  cases h
  rfl

/-- Into `a` in the first panel, then into `b` in the second one, which still shows `/`. -/
def enterBoth : List Key := enterThenTab ++ [.down, .down, .down, .enter]

/-- The second panel ends in `/a`; alone it would be in `/b`. -/
theorem panels_dependent :
    sample.toFileSystem.Accessible ∧ typedIn 1 0 enterBoth = [.down, .down, .down, .enter] ∧
    ∃ s₀ s d p, start sample.toFileSystem .root = some s₀ ∧
      run (step 21) s₀ (enterBoth.map .key) = some s ∧
      solo sample.toFileSystem 21 .root (s₀.panels 1) (typedIn 1 0 enterBoth) = some (d, p) ∧
      (s.panels 1).currentPath = slash :: nameA ∧ p.currentPath = slash :: nameB := by
  refine ⟨sample_accessible, by decide, ?_⟩
  obtain ⟨s₀, h₀⟩ : ∃ s₀, start sample.toFileSystem .root = some s₀ := ⟨_, rfl⟩
  obtain ⟨s, h⟩ : ∃ s, run (step 21) s₀ (enterBoth.map .key) = some s := by
    cases h₀
    exact ⟨_, rfl⟩
  obtain ⟨⟨d, p⟩, hp⟩ : ∃ r, solo sample.toFileSystem 21 .root (s₀.panels 1)
      (typedIn 1 0 enterBoth) = some r := by
    cases h₀
    exact ⟨_, rfl⟩
  refine ⟨s₀, s, d, p, h₀, h, hp, ?_, ?_⟩
  · cases h₀
    cases h
    decide
  · cases h₀
    cases hp
    decide

end FileManager
end PosixHw
