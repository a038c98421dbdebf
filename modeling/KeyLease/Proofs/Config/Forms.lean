import KeyLease.Proofs.Config.Objects
import KeyLease.Proofs.Config.Arrays

set_option autoImplicit false

/-!
# The forms of a document

Whatever the form in which a configuration is written, an object or an array, it is read as the same
configuration (`forms_agree`).
-/

namespace KeyLease.Config

open Json

/-- **The forms of a document agree.** Take a URI, a default time to live, and a limit of a command
and a sweep interval that may be given or not, all numbers of 64 bits. Every object text with exactly
these members, in any order and spelling and among any other members, is the same configuration, and
so is every array text of them in their order. An object text in which the URI or the time to live
is missing, or any of the four members is repeated, is refused, and so is an array that does not
begin with a URI and another element. -/
theorem forms_agree {u : String} {t : Nat} {o : Option Nat} {s : Option (Option Nat)}
    (hfits : ∀ f ∈ fields u t o s, f.Fits) :
    (∀ items text, ObjectText items text.toList → items.reduceOption.Perm (fields u t o s) →
      read text = .ok (ofMillis u t o (s.getD none))) ∧
    (∀ text, ArrayText (fields u t o s) text.toList → (o = none → s = none) →
      read text = .ok (ofMillis u t o (s.getD none))) ∧
    (∀ items text, ObjectText items text.toList → (∀ item ∈ items, ∀ f ∈ item, f.Fits) →
      (Member.uri ∉ items.reduceOption.map Field.member ∨
        Member.defaultTtl ∉ items.reduceOption.map Field.member ∨
        ¬ (items.reduceOption.map Field.member).Nodup) →
      ∃ m : Member, read text = .error (.mismatch (.missing m.name)) ∨
        read text = .error (.mismatch (.duplicate m.name))) ∧
    ∀ fs text, ArrayText fs text.toList → (∀ u f more, fs ≠ .uri u :: f :: more) →
      ∃ fault, read text = .error fault :=
  ⟨fun _ _ h hperm => read_object_of_perm h hfits hperm, fun _ h hlast => read_array h hfits hlast,
    fun _ _ h hall hbad => read_object_refused h hall hbad, fun _ _ h hbad => read_array_refused h hbad⟩

/-- A text with the URI under another spelling of its name, the time to live before it, and a member
of another name with a value that is nested. -/
theorem forms_agree_spelled :
    read "\x7b\"default_ttl_ms\":5000,\"x\":[\x7b\x7d] , \"\\u0075ri\":\"redis:\\/\\/a\"\x7d"
      = .ok (ofMillis "redis://a" 5000 none none) := by
  have hletter : SpellsChar ['\\', 'u', '0', '0', '7', '5'] 'u' :=
    .unit (@IsHexUnit.digits '0' '0' '7' '5' 0 0 7 5 rfl rfl rfl rfl)
  have hslash : SpellsChar ['\\', '/'] '/' := .short (by decide)
  have hname : Spells "\\u0075ri".toList "uri".toList :=
    .cons hletter (spells_self (by decide +kernel))
  have hscheme : Spells "redis:".toList "redis:".toList := spells_self (by decide +kernel)
  have hhost : Spells ['a'] ['a'] := spells_self (by decide)
  have hspelled : Spells "redis:\\/\\/a".toList "redis://a".toList :=
    hscheme.append (.cons hslash (.cons hslash hhost))
  have huri : (Field.uri "redis://a").ValueText ('"' :: ("redis:\\/\\/a".toList ++ ['"'])) :=
    .uri hspelled
  have httlName : Spells "default_ttl_ms".toList Member.defaultTtl.name.toList :=
    spells_self (by decide +kernel)
  have hx : Spells ['x'] ['x'] := spells_self (by decide)
  have hnested : Derives .value ('[' :: ([] ++ ('\x7b' :: ([] ++ ['\x7d']) ++ []) ++ [']'])) :=
    .array (.lastElement isBlank_nil (.emptyObject isBlank_nil) isBlank_nil)
  have hspace : IsBlank [' '] := by decide
  have hmembers := MembersText.cons isBlank_nil
    (MemberText.known httlName isBlank_nil isBlank_nil (.defaultTtl 5000)) isBlank_nil
    (.cons isBlank_nil
      (.other hx (fun m => by cases m <;> decide) isBlank_nil isBlank_nil hnested) hspace
      (.last hspace (.known hname isBlank_nil isBlank_nil huri) isBlank_nil))
  have hobject := ObjectText.members isBlank_nil hmembers isBlank_nil
  have hfits : ∀ f ∈ fields "redis://a" 5000 none none, f.Fits := by
    simp [fields, Field.Fits]
  refine (forms_agree hfits).1 _ _ (Eq.mpr (congrArg (ObjectText _) ?_) hobject) (.swap _ _ _)
  decide +kernel

end KeyLease.Config
