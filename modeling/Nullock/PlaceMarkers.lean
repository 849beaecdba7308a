import Nullock.CookieJar

namespace Nullock

def markerNumber : QString → Option (Nat × Nat)
  | c :: d :: _ =>
    if isDigit c then
      if isDigit d then some (10 * (c.toNat - 0x30) + (d.toNat - 0x30), 2)
      else some (c.toNat - 0x30, 1)
    else none
  | [c] => if isDigit c then some (c.toNat - 0x30, 1) else none
  | [] => none

def markerAt : QString → Option (Nat × Nat)
  | 0x25 :: 0x4C :: s => (markerNumber s).map (fun m => (m.1, m.2 + 2))
  | 0x25 :: s => (markerNumber s).map (fun m => (m.1, m.2 + 1))
  | _ => none

def markers : QString → List Nat
  | [] => []
  | c :: s => ((markerAt (c :: s)).map Prod.fst).toList ++ markers s

/-- Markers of a number replaced; `skip` characters are still passed over. -/
def replaceMarker (n : Nat) (value : QString) : Nat → QString → QString
  | _, [] => []
  | skip + 1, _ :: s => replaceMarker n value skip s
  | 0, c :: s =>
    match markerAt (c :: s) with
    | some (m, len) =>
      if m = n then value ++ replaceMarker n value (len - 1) s
      else c :: replaceMarker n value 0 s
    | none => c :: replaceMarker n value 0 s

def QString.arg (s value : QString) : QString :=
  match (markers s).min? with
  | some n => replaceMarker n value 0 s
  | none => s

theorem markerNumber_comma (s t : QString) :
    markerNumber (s ++ 0x2C :: t) = markerNumber s := by
  match s with
  | [] => cases t <;> rfl
  | [c] =>
    show (if isDigit c then if isDigit 0x2C then _ else _ else _) = _
    rfl
  | c :: d :: s => rfl

theorem markerAt_comma (c : UInt16) (s t : QString) :
    markerAt (c :: s ++ 0x2C :: t) = markerAt (c :: s) := by
  by_cases hc : c = 0x25
  · subst hc
    match s with
    | [] => cases t <;> rfl
    | d :: s =>
      by_cases hd : d = 0x4C
      · subst hd
        show (markerNumber (s ++ 0x2C :: t)).map _ = (markerNumber s).map _
        rw [markerNumber_comma]
      · have hright : markerAt (0x25 :: d :: s) =
            (markerNumber (d :: s)).map (fun m => (m.1, m.2 + 1)) := by
          rw [markerAt]
          rintro u ⟨⟩
          exact hd rfl
        have hleft : markerAt (0x25 :: d :: (s ++ 0x2C :: t)) =
            (markerNumber (d :: (s ++ 0x2C :: t))).map (fun m => (m.1, m.2 + 1)) := by
          rw [markerAt]
          rintro u ⟨⟩
          exact hd rfl
        rw [hright]
        refine hleft.trans ?_
        exact congrArg _ (markerNumber_comma (d :: s) t)
  · have hnone (u : QString) : markerAt (c :: u) = none := by
      rw [markerAt]
      · rintro v ⟨⟩
        exact hc rfl
      · rintro v ⟨⟩
        exact hc rfl
    rw [hnone, List.cons_append, hnone]

theorem markers_comma (s t : QString) : markers (s ++ 0x2C :: t) = markers s ++ markers t := by
  induction s with
  | nil => rfl
  | cons c s ih =>
    have hat := markerAt_comma c s t
    rw [List.cons_append] at hat
    rw [List.cons_append, markers, markers, hat, ih, List.append_assoc]

theorem replaceMarker_comma (h : ∀ m ∈ markers s, m ≠ n) (value t : QString) :
    replaceMarker n value 0 (s ++ 0x2C :: t) = s ++ 0x2C :: replaceMarker n value 0 t := by
  induction s with
  | nil => rfl
  | cons c s ih =>
    have hat := markerAt_comma c s t
    rw [markers, List.forall_mem_append] at h
    rw [List.cons_append] at hat
    rw [List.cons_append, replaceMarker, hat, ih h.2]
    cases hm : markerAt (c :: s) with
    | none => rfl
    | some m =>
      have hne : m.1 ≠ n := h.1 m.1 (by rw [hm]; exact List.mem_singleton_self _)
      show (if m.1 = n then _ else _) = _
      rw [if_neg hne]
      rfl

end Nullock
