import ReverseSweep.RunRecord
import ReverseSweep.Proofs.Overriding
import ReverseSweep.Proofs.Reading

/-! The record of an unfinished run reads back from its text. Each name stands in it once: the
built-in ones first, then the extra ones in the order in which they were first given. -/

namespace ReverseSweep

theorem Text.beforeEnding?_eq_some_iff {ending text kept : String} :
    beforeEnding? ending text = some kept ↔ text = kept ++ ending := by
  unfold beforeEnding?
  constructor
  · intro h
    dsimp only at h
    split at h
    · rename_i hends
      obtain rfl := Option.some.inj h
      have hsplit := List.take_append_drop (text.toList.length - ending.toList.length) text.toList
      rw [hends.2] at hsplit
      rw [← String.toList_inj, String.toList_append, String.toList_ofList, hsplit]
    · cases h
  · rintro rfl
    simp

/-- What an answer of the version control tool says of the working copy. -/
inductive Revision.Answers : Option Description → Revision → Prop
  | unknown {answer : Option Description} (h : ∀ d ∈ answer, d.exitCode ≠ 0) :
    Answers answer ⟨none, none⟩
  | dirty {d : Description} {commit : String} (h : d.exitCode = 0)
    (htext : Text.trim d.output = commit ++ "-dirty") : Answers (some d) ⟨some commit, some true⟩
  | clean {d : Description} (h : d.exitCode = 0)
    (htext : ∀ commit, Text.trim d.output ≠ commit ++ "-dirty") :
    Answers (some d) ⟨some (Text.trim d.output), some false⟩

theorem Revision.answers_ofDescription (answer : Option Description) :
    Answers answer (ofDescription answer) := by
  cases answer with
  | none => exact .unknown (by simp)
  | some d =>
    by_cases hcode : d.exitCode = 0
    · simp only [ofDescription, hcode, ne_eq, not_true_eq_false, if_false]
      split
      · rename_i commit hmark
        exact .dirty hcode (Text.beforeEnding?_eq_some_iff.mp hmark)
      · rename_i hnone
        refine .clean hcode fun commit htext => ?_
        cases hnone.symm.trans (Text.beforeEnding?_eq_some_iff.mpr htext)
    · simp only [ofDescription, ne_eq, hcode, not_false_eq_true, if_true]
      exact .unknown (by simpa using hcode)

namespace RunRecord

open Settings (names)

variable {r : RunRecord}

/-- An unfinished run whose values are exact. -/
structure IsExact (r : RunRecord) : Prop where
  unfinished : r.finish = none
  config : Json.IsExact r.config
  environment : Json.IsExact r.environment
  strategy : ∀ values ∈ r.strategy, ∀ field ∈ values, Json.IsExact field.2
  replay : ∀ values ∈ r.replay, ∀ field ∈ values, Json.IsExact field.2
  extra : ∀ field ∈ r.extra, Json.IsExact field.2

def builtInNames : List String :=
  ["git_commit", "git_dirty", "start_time", "end_time", "duration_seconds", "command", "config",
    "environment", "strategy", "replay"]

/-- The values under the built-in names of an unfinished run, each by what it records. -/
structure Records (r : RunRecord) (value : String → Option Json) : Prop where
  commit : value "git_commit" = some (r.revision.commit.elim .null .str)
  dirty : value "git_dirty" = some (r.revision.dirty.elim .null .bool)
  start : value "start_time" = some (.str r.start.iso)
  finish : value "end_time" = some .null
  duration : value "duration_seconds" = some .null
  command : value "command" = some (.str r.command)
  config : value "config" = some r.config
  environment : value "environment" = some r.environment
  strategy : value "strategy" = some (r.strategy.elim .null .object)
  replay : value "replay" = some (r.replay.elim .null .object)
  other : ∀ name ∉ builtInNames, value name = none

theorem names_builtIn (r : RunRecord) : names r.builtIn = builtInNames := rfl

theorem orNull_eq_elim {β : Type} (f : β → Json) (value : Option β) :
    orNull f value = value.elim .null f := by
  cases value <;> rfl

theorem records_builtIn (h : r.finish = none) : r.Records r.builtIn.get? where
  commit := congrArg some (orNull_eq_elim _ _)
  dirty := congrArg some (orNull_eq_elim _ _)
  start := rfl
  finish := congrArg some (by rw [h]; rfl)
  duration := congrArg some (by rw [h]; rfl)
  command := rfl
  config := rfl
  environment := rfl
  strategy := congrArg some (orNull_eq_elim _ _)
  replay := congrArg some (orNull_eq_elim _ _)
  other name hname := Settings.get?_eq_none (by rwa [names_builtIn])

theorem isExact_orNull {β : Type} {f : β → Json} {value : Option β}
    (h : ∀ b ∈ value, Json.IsExact (f b)) : Json.IsExact (orNull f value) := by
  cases value with
  | none => exact .null
  | some b => exact h b rfl

theorem IsExact.builtIn (h : r.IsExact) : ∀ field ∈ r.builtIn, Json.IsExact field.2 := by
  have hcommit : Json.IsExact (orNull .str r.revision.commit) :=
    isExact_orNull fun text _ => .str text
  have hdirty : Json.IsExact (orNull .bool r.revision.dirty) := isExact_orNull fun b _ => .bool b
  have hfinish (f : Moment → Json) : Json.IsExact (orNull f r.finish) := by
    rw [h.unfinished]
    exact .null
  have hstrategy : Json.IsExact (orNull .object r.strategy) :=
    isExact_orNull fun values hv => .object (h.strategy values hv)
  have hreplay : Json.IsExact (orNull .object r.replay) :=
    isExact_orNull fun values hv => .object (h.replay values hv)
  simp only [RunRecord.builtIn, List.forall_mem_cons]
  exact ⟨hcommit, hdirty, .str _, hfinish _, hfinish _, .str _, h.config, h.environment, hstrategy,
    hreplay, by simp⟩

theorem isExact_put {s : Settings} (hs : ∀ field ∈ s, Json.IsExact field.2) {value : Json}
    (hvalue : value.IsExact) (name : String) :
    ∀ field ∈ s.put name value, Json.IsExact field.2 := by
  induction s with
  | nil => simpa [Settings.put] using hvalue
  | cons head s ih =>
    obtain ⟨hhead, hrest⟩ := List.forall_mem_cons.mp hs
    rw [Settings.put]
    split
    · exact List.forall_mem_cons.mpr ⟨hvalue, hrest⟩
    · exact List.forall_mem_cons.mpr ⟨hhead, ih hrest⟩

theorem isExact_update {s later : Settings} (hs : ∀ field ∈ s, Json.IsExact field.2)
    (hlater : ∀ field ∈ later, Json.IsExact field.2) :
    ∀ field ∈ s.update later, Json.IsExact field.2 := by
  induction later generalizing s with
  | nil => exact hs
  | cons head later ih =>
    obtain ⟨hhead, hrest⟩ := List.forall_mem_cons.mp hlater
    exact ih (isExact_put hs hhead head.1) hrest

theorem IsExact.object (h : r.IsExact) : Json.IsExact (.object r.fields) :=
  .object (isExact_update h.builtIn h.extra)

/-- The text is plain ASCII and holds one object. A name has its last extra value, and without one
its built-in value, which is what the record has there. -/
theorem exists_parse_text (h : r.IsExact) :
    Json.Ascii r.text.toList ∧
      (∃ (s : Settings) (value : String → Option Json), Json.parse r.text = some (.object s) ∧
        names s = builtInNames ++ ((names r.extra).filter (· ∉ builtInNames)).eraseDups ∧
        (names s).Nodup ∧ r.Records value ∧
        ∀ name, s.get? name = (Settings.get? r.extra.reverse name).or (value name)) ∧
      ∀ answer, r.revision = .ofDescription answer → r.revision.Answers answer := by
  refine ⟨Json.ascii_indented h.object, ⟨r.fields, r.builtIn.get?, Json.parse_indented h.object, ?_,
    ?_, records_builtIn h.unfinished, ?_⟩, fun answer hanswer => ?_⟩
  · exact Settings.names_update r.builtIn r.extra
  · have hbuiltIn : (names r.builtIn).Nodup := by
      rw [names_builtIn]
      decide
    exact Settings.nodup_update hbuiltIn r.extra
  · exact Settings.get?_update r.builtIn r.extra
  · rw [hanswer]
    exact Revision.answers_ofDescription answer

/-- A run on a changed working copy, with texts that need every kind of escape. Two extra values take
the place of built-in ones, and one name is given twice. -/
def crowded : RunRecord where
  revision := .ofDescription (some ⟨0, " 1a2b3c-dirty\n"⟩)
  start := ⟨2024, 2, 29, 23, 59, 59, 7⟩
  command := "sweep \"a\\b\"\n\t\x00 é 𝄞"
  config := .object [("𝄞", .list [.list [], .object [], .int (-3)]), ("", .null)]
  environment := .object [("cuda_device", .null)]
  strategy := some [("size", .int 0), ("strategy", .str "é")]
  replay := some [("steps", .int 1180591620717411303424)]
  extra := [("note", .bool true), ("end_time", .str "never"), ("\"", .int 0), ("note", .bool false),
    ("git_dirty", .list [.str "\x7f"])]

theorem exists_parse_text_crowded :
    Json.Ascii crowded.text.toList ∧
      ∃ s : Settings, Json.parse crowded.text = some (.object s) ∧
        names s = builtInNames ++ ["note", "\""] ∧ (names s).Nodup ∧
        s.get? "note" = some (.bool false) ∧ s.get? "end_time" = some (.str "never") ∧
        s.get? "git_dirty" = some (.list [.str "\x7f"]) ∧
        s.get? "git_commit" = some (.str "1a2b3c") ∧
        s.get? "start_time" = some (.str "2024-02-29T23:59:59.000007") ∧
        s.get? "duration_seconds" = some .null ∧
        s.get? "command" = some (.str "sweep \"a\\b\"\n\t\x00 é 𝄞") ∧
        s.get? "config" =
          some (.object [("𝄞", .list [.list [], .object [], .int (-3)]), ("", .null)]) ∧
        s.get? "environment" = some (.object [("cuda_device", .null)]) ∧
        s.get? "strategy" = some (.object [("size", .int 0), ("strategy", .str "é")]) ∧
        s.get? "replay" = some (.object [("steps", .int 1180591620717411303424)]) := by
  have hexact : crowded.IsExact := by
    constructor <;> simp +contextual [crowded, or_imp]
  obtain ⟨hascii, ⟨s, value, hparse, hnames, hnodup, hvalue, hget⟩, -⟩ :=
    exists_parse_text hexact
  have hnew : ((names crowded.extra).filter (· ∉ builtInNames)).eraseDups = ["note", "\""] := by
    decide +kernel
  rw [hnew] at hnames
  have hcommit : crowded.revision.commit = some "1a2b3c" := by decide +kernel
  have hstart : crowded.start.iso = "2024-02-29T23:59:59.000007" := by decide +kernel
  refine ⟨hascii, s, hparse, hnames, hnodup, by rw [hget]; rfl, by rw [hget]; rfl,
    by rw [hget]; rfl, ?_, ?_, ?_, ?_, ?_, ?_, ?_, ?_⟩ <;> rw [hget]
  · exact hvalue.commit.trans (by rw [hcommit]; rfl)
  · exact hvalue.start.trans (by rw [hstart])
  · exact hvalue.duration
  · exact hvalue.command
  · exact hvalue.config
  · exact hvalue.environment
  · exact hvalue.strategy
  · exact hvalue.replay

end RunRecord
end ReverseSweep
