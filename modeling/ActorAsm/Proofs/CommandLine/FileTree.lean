import ActorAsm.CommandLine.FileTree
import Mathlib.Tactic.SplitIfs

/-! Writing to a tree of files. What has been written at a path is what is read there afterwards,
and nothing else in the tree is another than before. -/

namespace ActorAsm.CommandLine.FileTree
variable {t : FileTree} {place other start : List String} {entry : Entry} {path text : String}

private theorem lookup_put_self : (t.put place entry).entries.lookup place = some entry := by
  have hnone : (t.entries.filter (·.1 ≠ place)).lookup place = none := by
    rw [List.lookup_eq_none_iff]
    intro e he
    have hne : e.1 ≠ place := by simpa using (List.mem_filter.mp he).2
    simpa using Ne.symm hne
  rw [put, List.lookup_append, hnone, Option.none_or, List.lookup_cons_self]

theorem lookup_put_of_ne (h : other ≠ place) :
    (t.put place entry).entries.lookup other = t.entries.lookup other := by
  have hlookup : (t.entries.filter (·.1 ≠ place)).lookup other = t.entries.lookup other := by
    induction t.entries with
    | nil => rfl
    | cons e entries ih =>
      by_cases hkey : e.1 = place
      · have hne : (other == e.1) = false := by simpa [hkey] using h
        rw [List.filter_cons_of_neg (by simpa using hkey), ih, List.lookup_cons, hne]
      · rw [List.filter_cons_of_pos (by simpa using hkey), List.lookup_cons, List.lookup_cons, ih]
  have hne : (other == place) = false := by simpa using h
  rw [put, List.lookup_append, hlookup, List.lookup_cons, hne, List.lookup_nil, Option.or_none]

theorem entry?_put_self : entry? (t.put place entry) place = some entry := by
  rw [ entry?, lookup_put_self]

/-- What something is in has something in it still. -/
theorem any_isParent_put (h : t.entries.any (isParent other)) :
    (t.put place entry).entries.any (isParent other) := by
  obtain ⟨e, he, hparent⟩ := List.any_eq_true.mp h
  rw [List.any_eq_true]
  by_cases hkey : e.1 = place
  · exact ⟨(place, entry), by simp [put], hkey ▸ hparent⟩
  · exact ⟨e, by simp [put, he, hkey], hparent⟩

private theorem entry?_put_of_directory (h : t.entry? other = some .directory)
    (hne : other ≠ place) : entry? (t.put place entry) other = some .directory := by
  unfold entry? at h ⊢
  rw [lookup_put_of_ne hne]
  split at h
  · exact h
  · split at h
    next hdirectory =>
      refine if_pos (hdirectory.imp_right (Or.imp_right any_isParent_put))
    · cases h

private theorem enter_eq_ok_iff : t.enter place = .ok () ↔ t.entry? place = some .directory := by
  unfold enter
  split <;> simp_all

/-- Paths lead where they led before, as they lead through directories only. -/
theorem follow_put (hplace : t.entry? place ≠ some .directory) {leading : List String}
    (h : t.follow start leading = .ok other) :
    (t.put place entry).follow start leading = .ok other := by
  induction leading generalizing start with
  | nil => exact h
  | cons part parts ih =>
    unfold follow at h ⊢
    cases henter : t.enter start with
    | error e =>
      rw [henter] at h
      cases h
    | ok =>
      have hdirectory := enter_eq_ok_iff.mp henter
      have hne : start ≠ place := by
        rintro rfl
        exact hplace hdirectory
      rw [henter] at h
      rw [enter_eq_ok_iff.mpr (entry?_put_of_directory hdirectory hne)]
      simp only [bind, Except.bind] at h ⊢
      split_ifs at h ⊢ with hhere habove
      · exact ih h
      · exact ih h
      · exact ih h

private theorem locate_put (hplace : t.entry? place ≠ some .directory)
    (h : t.locate path = .ok other) : (t.put place entry).locate path = .ok other := by
  unfold locate followFrom at h ⊢
  split_ifs at h ⊢
  · exact follow_put hplace h
  · exact follow_put hplace h

/-- What can be opened stands where the path leads, and is no directory. -/
theorem openForWriting_eq_ok (h : t.openForWriting path = .ok (place, entry)) :
    namesDirectory path = false ∧ t.locate path = .ok place ∧ t.entry? place ≠ some .directory := by
  unfold openForWriting at h
  split_ifs at h with hname
  · cases henter : t.enterParent path <;> simp [henter, bind, Except.bind] at h
  · cases hlocate : t.locate path with
    | error e => simp [hlocate, bind, Except.bind] at h
    | ok found =>
      simp only [hlocate, bind, Except.bind] at h
      split at h
      · cases h
      all_goals
        cases h
        exact ⟨by simpa using hname, rfl, by simp_all⟩

/-- A path that can be opened for writing and has space for what is written. -/
def isWritable (t : FileTree) (path : String) : Bool :=
  match t.openForWriting path with
  | .error _ | .ok (_, .sink true) => false
  | .ok _ => true

theorem writeText_eq_done_iff (t : FileTree) (path text : String) :
    (t.writeText path text).1 = .done ↔ t.isWritable path := by
  unfold writeText isWritable
  split <;> simp_all

private theorem writeText_of_file {bytes : ByteArray}
    (h : t.openForWriting path = .ok (place, .file bytes)) :
    t.writeText path text = (.done, t.put place (.file text.toUTF8)) := by
  rw [writeText, h]

/-- Whatever becomes of a text, the tree is as it was, or a file has all of it and nothing else. -/
theorem writeText_cases (t : FileTree) (path text : String) :
    (t.writeText path text).2 = t ∨
      ∃ place bytes, t.openForWriting path = .ok (place, .file bytes) ∧
        (t.writeText path text).2 = t.put place (.file text.toUTF8) := by
  cases hopen : t.openForWriting path with
  | error e => exact .inl (by rw [writeText, hopen])
  | ok opened =>
    obtain ⟨place, entry⟩ := opened
    cases entry with
    | file bytes => exact .inr ⟨place, bytes, rfl, by rw [writeText, hopen]⟩
    | directory => exact .inl (by rw [writeText, hopen])
    | sink full => cases full <;> exact .inl (by rw [writeText, hopen])

/-- A text that has been put into a file is what is read there. -/
theorem readText_writeText {bytes : ByteArray}
    (h : t.openForWriting path = .ok (place, .file bytes)) :
    (t.writeText path text).2.readText path = .ok text := by
  obtain ⟨hname, hlocate, hplace⟩ := openForWriting_eq_ok h
  have hread : (t.put place (.file text.toUTF8)).readBytes path = .ok text.toUTF8 := by
    simp [readBytes, locate_put hplace hlocate, entry?_put_self, hname, bind, Except.bind]
  have htext : String.fromUTF8? text.toUTF8 = some text := dif_pos text.isValidUTF8
  rw [writeText_of_file h]
  simp only [readText, hread, htext]

end ActorAsm.CommandLine.FileTree
