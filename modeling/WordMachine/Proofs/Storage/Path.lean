import WordMachine.Proofs.Text.Lines
import WordMachine.Storage.Path

namespace WordMachine.Path

/-! Paths by their segments: the last one is the file name, if it names anything,
and a new extension changes no other. -/

variable {path other : Path} {front : List Bytes} {name stem extension : Bytes}

theorem slash_not_mem_segment {segment : Bytes}
    (member : segment ∈ path.segments) : slash ∉ segment :=
  not_mem_of_mem_splitOn member

private theorem segments_ofSegments {segments : List Bytes} (present : segments ≠ [])
    (clean : ∀ segment ∈ segments, slash ∉ segment) :
    (ofSegments segments).segments = segments :=
  List.splitOn_intercalate slash clean present

theorem exists_segments_eq_concat (path : Path) :
    ∃ front name, path.segments = front ++ [name] := by
  have present : path.segments ≠ [] := List.splitOn_ne_nil slash path.bytes
  exact ⟨_, _, (List.dropLast_concat_getLast present).symm⟩

theorem bytes_of_segments (split : path.segments = front ++ [name]) :
    path.bytes = (front.flatMap fun segment => segment ++ [slash]) ++ name := by
  rw [← intercalate_concat, ← split]
  exact congrArg bytes (ofSegments_segments path).symm

theorem isAbsolute_of_segments (split : path.segments = front ++ [name]) :
    path.isAbsolute = (front.head? == some []) := by
  have clean : ∀ segment ∈ front ++ [name], slash ∉ segment := by
    intro segment member
    exact slash_not_mem_segment (split ▸ member)
  rw [isAbsolute, bytes_of_segments split]
  cases front with
  | nil =>
      have bare := clean name (by simp)
      cases name with
      | nil => rfl
      | cons first rest =>
          have different : first ≠ slash := fun same => bare (by simp [same])
          simpa using different
  | cons segment rest =>
      have bare := clean segment (by simp)
      cases segment with
      | nil => rfl
      | cons first others =>
          have different : first ≠ slash := fun same => bare (by simp [same])
          simpa using different

private def leading (front : List Bytes) : List Bytes :=
  (if front.head? = some [] then [[slash]]
    else if front.head? = some here then [here]
    else []) ++ front.filter fun segment => !isVoid segment

private theorem components_of_segments (split : path.segments = front ++ [name])
    (solid : isVoid name = false) :
    path.components = leading front ++ [name] := by
  have notHere : name ≠ here := by
    rintro rfl
    cases solid
  simp only [components, isAbsolute_of_segments split, split, beq_iff_eq,
    List.filter_append, List.filter_cons, List.filter_nil, solid,
    Bool.not_false, ↓reduceIte, leading, List.append_assoc]
  cases front with
  | nil => simp [notHere]
  | cons segment rest => simp

private theorem same_iff_of_segments {renamed : Bytes}
    (split : path.segments = front ++ [name])
    (split' : other.segments = front ++ [renamed])
    (solid : isVoid name = false) (solid' : isVoid renamed = false) :
    other.same path = true ↔ renamed = name := by
  rw [same, components_of_segments split solid,
    components_of_segments split' solid']
  simp

theorem eq_append_of_splitName
    (split : splitName name = (stem, some extension)) :
    stem ≠ [] ∧ name = stem ++ dot :: extension := by
  unfold splitName at split
  split at split
  next head last rest found =>
      obtain ⟨kept, dropped⟩ := Prod.mk.inj split
      have stops := List.head?_dropWhile_not (fun byte => byte != dot) name.reverse
      rw [found] at stops
      obtain rfl : head = dot := by simpa using stops
      have whole : name.reverse = extension.reverse ++ dot :: stem.reverse := by
        rw [← List.takeWhile_append_dropWhile (l := name.reverse)
          (p := fun byte => byte != dot), found, ← kept, ← Option.some.inj dropped]
        simp
      refine ⟨?_, by simpa using congrArg List.reverse whole⟩
      rw [← kept]
      simp
  next => cases split

structure Named (path : Path) (front : List Bytes) (stem extension : Bytes) :
    Prop where
  segments : path.segments = front ++ [stem ++ dot :: extension]
  split : splitName (stem ++ dot :: extension) = (stem, some extension)
  solid : isVoid (stem ++ dot :: extension) = false
  noUp : stem ++ dot :: extension ≠ up

theorem named_of_segments (split : path.segments = front ++ [name])
    (solid : isVoid name = false) : path.named = name :: front.reverse := by
  rw [named, split, List.reverse_concat, List.dropWhile_cons, solid]
  rfl

theorem fileName?_of_segments (split : path.segments = front ++ [name])
    (solid : isVoid name = false) :
    path.fileName? = if name = up then none else some name := by
  rw [fileName?, named_of_segments split solid]
  by_cases same : name = up
  · simp [same]
  · simp [same]

theorem exists_named (split : path.segments = front ++ [name])
    (solid : isVoid name = false) (found : path.extension? = some extension) :
    ∃ stem, path.Named front stem extension := by
  rw [extension?, fileName?_of_segments split solid] at found
  by_cases same : name = up
  · rw [if_pos same] at found
    cases found
  · rw [if_neg same, Option.bind_some] at found
    have parts : splitName name = ((splitName name).1, some extension) :=
      Prod.ext rfl found
    have whole := (eq_append_of_splitName parts).2
    exact ⟨(splitName name).1,
      whole ▸ split, whole ▸ parts, whole ▸ solid, whole ▸ same⟩

def renamed (stem extension : Bytes) : Bytes :=
  if stem = here then up else stem ++ dot :: extension

namespace Named

variable (named : path.Named front stem extension)
include named

theorem fileName? : path.fileName? = some (stem ++ dot :: extension) := by
  rw [fileName?_of_segments named.segments named.solid, if_neg named.noUp]

theorem extension? : path.extension? = some extension := by
  rw [Path.extension?, named.fileName?, Option.bind_some, named.split]

theorem segments_withExtension (new : Bytes) (clean : slash ∉ new) :
    (path.withExtension new).segments = front ++ [renamed stem new] := by
  have moved : path.withExtension new =
      ofSegments (front ++ [renamed stem new]) := by
    rw [withExtension, named_of_segments named.segments named.solid]
    simp only [beq_iff_eq, if_neg named.noUp, named.split, named.segments]
    simp [renamed]
  have inside : ∀ segment ∈ front ++ [stem ++ dot :: extension], slash ∉ segment := by
    intro segment member
    exact slash_not_mem_segment (named.segments ▸ member)
  rw [moved, segments_ofSegments (by simp)]
  intro segment member
  rcases List.mem_append.mp member with before | last
  · exact inside segment (List.mem_append_left _ before)
  · have bare := inside _ (List.mem_append_right _ List.mem_cons_self)
    rw [List.mem_singleton.mp last, renamed]
    split
    next => decide
    next =>
      refine List.not_mem_append (fun inStem => bare ?_)
        (List.not_mem_cons_of_ne_of_not_mem (by decide) clean)
      exact List.mem_append_left _ inStem

private theorem isVoid_renamed (new : Bytes) : isVoid (renamed stem new) = false := by
  obtain ⟨first, rest, rfl⟩ :=
    List.exists_cons_of_ne_nil (eq_append_of_splitName named.split).1
  rw [renamed]
  split
  next => rfl
  next => simp [isVoid, here]

theorem renamed_eq_iff {new : Bytes} :
    renamed stem new = stem ++ dot :: extension ↔ stem ≠ here ∧ new = extension := by
  by_cases dot : stem = here
  · rw [renamed, if_pos dot]
    constructor
    · intro same
      exact absurd same.symm named.noUp
    · intro allowed
      exact absurd dot allowed.1
  · simp [renamed, dot]

theorem withExtension_same_iff {new : Bytes} (clean : slash ∉ new) :
    (path.withExtension new).same path = true ↔
      stem ≠ here ∧ new = extension := by
  rw [same_iff_of_segments named.segments
    (named.segments_withExtension new clean) named.solid
    (named.isVoid_renamed new)]
  exact named.renamed_eq_iff

end Named

end WordMachine.Path
