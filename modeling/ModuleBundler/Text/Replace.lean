/-! Replacing the places where a text occurs in another. -/
namespace ModuleBundler.Text

/-- Replaces, from the left, every occurrence of a text that is not empty; occurrences do not
overlap. -/
def replaceChars (old new : List Char) : List Char → List Char
  | [] => []
  | c :: cs =>
    if old.isPrefixOf (c :: cs) then new ++ replaceChars old new (cs.drop (old.length - 1))
    else c :: replaceChars old new cs
  termination_by cs => cs.length
  decreasing_by all_goals simp; try omega

/-- Replaces every occurrence of a text; the empty text occurs before every character and at
the end. -/
def replaceAll (old new s : String) : String :=
  if old.isEmpty then
    String.ofList (new.toList ++ s.toList.flatMap (fun c => c :: new.toList))
  else
    String.ofList (replaceChars old.toList new.toList s.toList)

theorem replaceChars_of_not_infix {old new cs : List Char} (h : ¬ old <:+: cs) :
    replaceChars old new cs = cs := by
  induction cs with
  | nil => simp [replaceChars]
  | cons c cs ih =>
    rw [List.infix_cons_iff, not_or] at h
    simp [replaceChars, List.isPrefixOf_iff_prefix, h.1, ih h.2]

example : replaceAll "[name]" "b" "a-[name]-[name].js" = "a-b-b.js" := by decide +kernel

end ModuleBundler.Text
