import KwinApi.Daemon.Names
import KwinApi.Lib.Replace
import Mathlib.Logic.Function.Basic

/-!
# Staging the KWin script

`file_util.cpp`: the bundle is copied to the working directory with the placeholder for the service
name replaced. A path is its text. What the operating system answers is a parameter.

## Main definitions

* `KwinApi.replaceAll` — `replace_all`
* `KwinApi.stageKwinscript` — `stage_kwinscript`

## Main results

* `KwinApi.replaceAll_eq_intercalate` — the loop joins the pieces with the replacement
* `KwinApi.staged_text` — what a successful staging writes, and that staging it again changes
  nothing
-/

namespace KwinApi

/-- The placeholder inside the bundle. -/
def kDaemonServicePlaceholder : List UInt8 := ascii "@DAEMON_DBUS_SERVICE@"

/-! ### `replace_all` -/

/-- `content.find(needle, pos)` -/
def findFrom (content needle : List UInt8) (pos : ℕ) : Option ℕ :=
  (find needle (content.drop pos)).map (pos + ·)

theorem lt_of_findFrom {content needle : List UInt8} {pos hit : ℕ}
    (h : findFrom content needle pos = some hit) (hne : needle ≠ []) :
    content.length - (hit + needle.length) < content.length - pos := by
  obtain ⟨i, hi, rfl⟩ := Option.map_eq_some_iff.mp h
  have hle := add_length_le_of_find hi hne
  have hpos := List.length_pos_iff.mpr hne
  rw [List.length_drop] at hle
  omega

/-- The loop of `replace_all`. -/
def replaceLoop (content needle replacement : List UInt8) (hne : needle ≠ []) (out : List UInt8)
    (pos : ℕ) : List UInt8 :=
  match h : findFrom content needle pos with
  | none => out ++ content.drop pos
  | some hit =>
    have := lt_of_findFrom h hne
    replaceLoop content needle replacement hne
      (out ++ (content.drop pos).take (hit - pos) ++ replacement) (hit + needle.length)
  termination_by content.length - pos

/-- `replace_all` -/
def replaceAll (content needle replacement : List UInt8) : List UInt8 :=
  if hne : needle = [] then content else replaceLoop content needle replacement hne [] 0

section Loop

variable {content needle replacement : List UInt8} {hne : needle ≠ []} {out : List UInt8} {pos : ℕ}

theorem replaceLoop_of_none (h : findFrom content needle pos = none) :
    replaceLoop content needle replacement hne out pos = out ++ content.drop pos := by
  rw [replaceLoop]
  split
  · rfl
  · rename_i h'
    exact absurd (h.symm.trans h') nofun

theorem replaceLoop_of_some {hit : ℕ} (h : findFrom content needle pos = some hit) :
    replaceLoop content needle replacement hne out pos =
      replaceLoop content needle replacement hne
        (out ++ (content.drop pos).take (hit - pos) ++ replacement) (hit + needle.length) := by
  rw [replaceLoop]
  split
  · rename_i h'
    exact absurd (h'.symm.trans h) nofun
  · rename_i h'
    obtain rfl := Option.some.inj (h.symm.trans h')
    rfl

/-- The loop joins the pieces of what is left. -/
theorem replaceLoop_eq_intercalate :
    ∃ ps, Pieces needle (content.drop pos) ps ∧
      replaceLoop content needle replacement hne out pos = out ++ replacement.intercalate ps := by
  induction out, pos using replaceLoop.induct content needle replacement hne with
  | case1 out pos h =>
    refine ⟨_, .last (find_eq_none.mp (Option.map_eq_none_iff.mp h)), ?_⟩
    rw [replaceLoop_of_none h, List.intercalate_singleton]
  | case2 out pos hit h hlt ih =>
    obtain ⟨ps, hps, hloop⟩ := ih
    rw [replaceLoop_of_some h, hloop]
    obtain ⟨i, hi, rfl⟩ := Option.map_eq_some_iff.mp h
    -- The first piece is what the search skipped.
    have heq := eq_of_find hi
    rw [List.drop_drop, ← Nat.add_assoc] at heq
    have hfirst : ∀ j < ((content.drop pos).take i).length, ¬ needle <+:
        ((content.drop pos).take i ++
          (needle ++ content.drop (pos + i + needle.length))).drop j := by
      rw [← heq]
      intro j hj
      have hle := List.length_take_le i (content.drop pos)
      exact (find_eq_some hi).2 j (by omega)
    have hcons := Pieces.cons hfirst hps
    rw [← heq] at hcons
    refine ⟨_, hcons, ?_⟩
    rw [intercalate_cons hps.ne_nil, Nat.add_sub_cancel_left]
    simp only [List.append_assoc]

end Loop

theorem replaceAll_eq_intercalate {needle : List UInt8} (hne : needle ≠ [])
    (content replacement : List UInt8) :
    ∃ ps, Pieces needle content ps ∧
      replaceAll content needle replacement = replacement.intercalate ps := by
  rw [replaceAll, dif_neg hne]
  exact @replaceLoop_eq_intercalate content needle replacement hne [] 0

/-- A text without the needle stays as it is. -/
theorem replaceAll_of_absent {content needle : List UInt8} (h : ¬ needle <:+: content)
    (replacement : List UInt8) : replaceAll content needle replacement = content := by
  rw [replaceAll]
  split_ifs with hne
  · rfl
  · have hnone : findFrom content needle 0 = none := by
      rw [findFrom, List.drop_zero, find_eq_none.mpr h]
      rfl
    rw [replaceLoop_of_none hnone]
    rfl

/-! ### `stage_kwinscript` -/

/-- What stands in the files. -/
abbrev FileSystem := List UInt8 → Option (List UInt8)

/-- What the operating system answers while a script is staged. -/
structure StageIo where
  /-- `std::filesystem::absolute` -/
  absolute : List UInt8 → List UInt8
  parentPath : List UInt8 → List UInt8
  /-- Whether the bundle can be opened, if it exists. -/
  openIn : Bool
  /-- Whether reading it breaks off. -/
  bad : Bool
  /-- The message of a failed `create_directories`. -/
  createDirectories : Option (List UInt8)
  /-- Whether the staged copy can be opened. -/
  openOut : Bool
  /-- How much of the text was written, if not all of it. -/
  written : Option ℕ

/-- The operator `/` of paths, for a file name. -/
def slash (dir name : List UInt8) : List UInt8 :=
  if dir = [] ∨ dir.getLast? = some 47 then dir ++ name else dir ++ 47 :: name

namespace StageIo

variable (io : StageIo)

/-- The path of the staged copy. -/
def dst (workDir : List UInt8) : List UInt8 := io.absolute (slash workDir (ascii "kwinscript.js"))

/-- The content of the bundle, if it can be opened. -/
def content (fs : FileSystem) (src : List UInt8) : Option (List UInt8) :=
  if io.openIn then fs src else none

end StageIo

/-- The second half of `stage_kwinscript`: write the text. -/
def writeStaged (io : StageIo) (fs : FileSystem) (dst content : List UInt8) :
    FileSystem × List UInt8 :=
  match io.createDirectories with
  | some message =>
    (fs, ascii "cannot create directory " ++ io.parentPath dst ++ ascii ": " ++ message)
  | none =>
    if !io.openOut then (fs, ascii "cannot open " ++ dst)
    else
      match io.written with
      | some n => (Function.update fs dst (some (content.take n)), ascii "cannot write " ++ dst)
      | none => (Function.update fs dst (some content), [])

/-- `stage_kwinscript`: the files afterwards, and the error message. -/
def stageKwinscript (io : StageIo) (fs : FileSystem) (scriptPath workDir serviceName : List UInt8) :
    FileSystem × List UInt8 :=
  let src := io.absolute scriptPath
  match io.content fs src with
  | none => (fs, ascii "cannot open " ++ src)
  | some content =>
    if io.bad then (fs, ascii "cannot read " ++ src)
    else writeStaged io fs (io.dst workDir)
      (replaceAll content kDaemonServicePlaceholder serviceName)

theorem ascii_append_ne_nil {text : String} (h : ascii text ≠ []) (rest : List UInt8) :
    ascii text ++ rest ≠ [] := fun hnil => h (List.append_eq_nil_iff.mp hnil).1

/-- A staging without an error message wrote the bundle with the placeholder replaced, and nothing
else. -/
theorem stageKwinscript_ok {io : StageIo} {fs fs' : FileSystem}
    {scriptPath workDir serviceName : List UInt8}
    (h : stageKwinscript io fs scriptPath workDir serviceName = (fs', [])) :
    ∃ content, fs (io.absolute scriptPath) = some content ∧
      fs' = Function.update fs (io.dst workDir)
        (some (replaceAll content kDaemonServicePlaceholder serviceName)) := by
  have hfail : ∀ {g : FileSystem} {text : String} {rest : List UInt8}, ascii text ≠ [] →
      (g, ascii text ++ rest) ≠ (fs', []) := fun hne heq =>
    ascii_append_ne_nil hne _ (Prod.mk.inj heq).2
  rw [stageKwinscript] at h
  split at h
  · exact absurd h (hfail (by decide))
  · rename_i content hcontent
    rw [StageIo.content] at hcontent
    split_ifs at h hcontent
    · exact absurd h (hfail (by decide))
    · refine ⟨content, hcontent, ?_⟩
      rw [writeStaged] at h
      split at h
      · rw [List.append_assoc, List.append_assoc] at h
        exact absurd h (hfail (by decide))
      · split_ifs at h
        · exact absurd h (hfail (by decide))
        · split at h
          · exact absurd h (hfail (by decide))
          · exact (Prod.mk.inj h).1.symm

/-! ### Service names -/

/-- An accepted name takes no part in an occurrence of the placeholder: it has a `.` and no `@`. -/
theorem inert_of_isValidDbusName {name : List UInt8} (h : isValidDbusName name = true) :
    Inert kDaemonServicePlaceholder name := by
  have hname := (isValidDbusName_eq_true_iff name).mp h
  have hat : (64 : UInt8) ∉ name := fun hmem => hname.not_mem 64 hmem (by decide)
  refine ⟨⟨46, hname.dot_mem, by decide⟩, ?_, ?_⟩
  · rintro c hc heq
    obtain rfl : (64 : UInt8) = c := Option.some.inj heq
    exact hat hc
  · rintro c hc heq
    obtain rfl : (64 : UInt8) = c := Option.some.inj heq
    exact hat hc

/-- The text is the content with the leftmost non-overlapping placeholders replaced, holds no
placeholder, and is the same when it is treated again. -/
structure Substituted (content serviceName text : List UInt8) : Prop where
  pieces : ∃ ps, Pieces kDaemonServicePlaceholder content ps ∧ text = serviceName.intercalate ps
  absent : ¬ kDaemonServicePlaceholder <:+: text

theorem substituted_replaceAll {serviceName : List UInt8} (h : isValidDbusName serviceName = true)
    (content : List UInt8) :
    Substituted content serviceName (replaceAll content kDaemonServicePlaceholder serviceName) := by
  have hne : kDaemonServicePlaceholder ≠ [] := by decide
  obtain ⟨ps, hps, htext⟩ := replaceAll_eq_intercalate hne content serviceName
  rw [htext]
  exact ⟨⟨ps, hps, rfl⟩, hps.not_infix_intercalate hne (inert_of_isValidDbusName h)⟩

/-- A successful staging under an accepted name writes the text with every placeholder replaced,
and touches no other file. Staging that text under any accepted name writes it again, wherever it
then stands; where it is staged in place, no file changes. -/
theorem staged_text {io : StageIo} {fs fs' : FileSystem}
    {scriptPath workDir serviceName : List UInt8} (hname : isValidDbusName serviceName = true)
    (hstage : stageKwinscript io fs scriptPath workDir serviceName = (fs', [])) :
    ∃ content text, fs (io.absolute scriptPath) = some content ∧
      fs' = Function.update fs (io.dst workDir) (some text) ∧
      Substituted content serviceName text ∧
      ∀ (again : StageIo) (fs₁ fs₂ : FileSystem) (scriptPath' workDir' serviceName' : List UInt8),
        isValidDbusName serviceName' = true → fs₁ (again.absolute scriptPath') = some text →
        stageKwinscript again fs₁ scriptPath' workDir' serviceName' = (fs₂, []) →
        fs₂ (again.dst workDir') = some text ∧
          (again.absolute scriptPath' = again.dst workDir' → fs₂ = fs₁) := by
  obtain ⟨content, hcontent, hfs⟩ := stageKwinscript_ok hstage
  have hsub := substituted_replaceAll hname content
  refine ⟨content, _, hcontent, hfs, hsub, ?_⟩
  intro again fs₁ fs₂ scriptPath' workDir' serviceName' hname' htext hstage'
  obtain ⟨content', hcontent', hfs'⟩ := stageKwinscript_ok hstage'
  obtain rfl := Option.some.inj (htext.symm.trans hcontent')
  rw [replaceAll_of_absent hsub.absent] at hfs'
  constructor
  · rw [hfs', Function.update_self]
  · intro hsame
    rw [hfs', ← hsame, ← htext, Function.update_eq_self]

/-- A bundle with two placeholders that overlap and a third one right behind them. -/
theorem staged_text_three :
    let content := ascii "@DAEMON_DBUS_SERVICE@DAEMON_DBUS_SERVICE@@DAEMON_DBUS_SERVICE@"
    let io : StageIo := ⟨id, id, true, false, none, true, none⟩
    ∃ text, Substituted content (ascii "org.x") text ∧ ∀ fs,
      stageKwinscript io (fun _ => some text) (ascii "/w/kwinscript.js") (ascii "/w")
        (ascii "org.y") = (fs, []) → fs = fun _ => some text := by
  intro content io
  have hstage : stageKwinscript io (fun _ => some content) (ascii "/w/kwinscript.js") (ascii "/w")
      (ascii "org.x") = (Function.update (fun _ => some content) (io.dst (ascii "/w"))
        (some (replaceAll content kDaemonServicePlaceholder (ascii "org.x"))), []) := rfl
  obtain ⟨content', text, hcontent, -, hsub, hagain⟩ := staged_text (by decide) hstage
  obtain rfl := Option.some.inj hcontent
  refine ⟨text, hsub, fun fs hagain' => ?_⟩
  exact (hagain io (fun _ => some text) fs (ascii "/w/kwinscript.js") (ascii "/w") (ascii "org.y")
    (by decide) rfl hagain').2 rfl

end KwinApi
