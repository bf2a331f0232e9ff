import RuleEngine.Fact.Canonical
import RuleEngine.Proofs.Digest
import RuleEngine.Proofs.Fact.Key
import RuleEngine.Proofs.Json.Written
import RuleEngine.Proofs.Text.Sorted
import RuleEngine.Proofs.Value.Content

/-!
# The canonical text tells content apart

The canonical text of a value is a JSON text, and the data that it writes stands for the value: it
is the value itself, a list, or a map with a tag that no other sort of content has. So the text can
be read, and what is read stands for one content only.

* `exists_represents`: the canonical text reads as data that stands for the value.
* `Represents.sameContent`: data stands for one content.
* `canonical_eq_iff`: values that can be written have one canonical text exactly if they have the
  same content.
-/

namespace RuleEngine.Value

open Json (ReadsAs)

variable {u v p : Value} {xs ys : List Value} {es fs : List (Value × Value)}

/-! ## Texts of parts -/

theorem canonicalAll_eq_map (xs : List Value) : canonicalAll xs = xs.map canonical := by
  induction xs with
  | nil => rfl
  | cons x xs ih => rw [canonicalAll, ih, List.map_cons]

def canonicalEntry (e : Value × Value) : String := jsonArray [canonical e.1, canonical e.2]

theorem canonicalEntries_eq_map (es : List (Value × Value)) :
    canonicalEntries es = es.map canonicalEntry := by
  induction es with
  | nil => rfl
  | cons e es ih => rw [canonicalEntries, ih, List.map_cons, canonicalEntry]

theorem canonical_of_sequence (h : v.sequence? = some xs) :
    v.canonical = jsonArray (xs.map canonical) := by
  rw [← canonicalAll_eq_map]
  cases v with
  | list | tuple => cases h; rfl
  | _ => cases h

theorem canonical_of_members (h : v.members? = some xs) :
    v.canonical = tagged "__set__" (jsonArray (Text.sort (xs.map canonical))) := by
  rw [← canonicalAll_eq_map]
  cases v with
  | set | frozenSet => cases h; rfl
  | _ => cases h

theorem canonical_map (es : List (Value × Value)) :
    (map es).canonical = tagged "__map__" (jsonArray (Text.sort (es.map canonicalEntry))) := by
  rw [← canonicalEntries_eq_map]
  rfl

/-! ## One content has one text -/

theorem SameContent.canonical_eq (h : u.SameContent v) : u.canonical = v.canonical := by
  induction h with
  | scalar | bytes => rfl
  | sequence hu hv hlen _ ih =>
    rw [canonical_of_sequence hu, canonical_of_sequence hv]
    exact congrArg jsonArray (map_eq_map_iff.mpr (List.forall₂_iff_zip.mpr ⟨hlen, ih _ _⟩))
  | members hu hv hperm hlen _ ih =>
    have htexts := map_eq_map_iff.mpr (List.forall₂_iff_zip.mpr ⟨hlen, ih _ _⟩)
    rw [canonical_of_members hu, canonical_of_members hv, htexts,
      Text.sort_eq_iff.mpr (hperm.map canonical)]
  | @map es fs gs hperm hlen _ _ ihk ihv =>
    have htexts : es.map canonicalEntry = gs.map canonicalEntry := by
      refine map_eq_map_iff.mpr (List.forall₂_iff_zip.mpr ⟨hlen, fun {e g} hmem => ?_⟩)
      rw [canonicalEntry, canonicalEntry, ihk e g hmem, ihv e g hmem]
    rw [canonical_map, canonical_map, htexts, Text.sort_eq_iff.mpr (hperm.map canonicalEntry)]

/-! ## The data of a text -/

def pairList (e : Value × Value) : Value := .list [e.1, e.2]

theorem pairList_injective : Function.Injective pairList := by
  intro e f h
  simpa [pairList, Prod.ext_iff] using h

/-- JSON data that stands for a value. -/
inductive Represents : Value → Value → Prop where
  | scalar {v : Value} (scalar : v.IsScalar) : Represents v v
  | bytes (bs : List UInt8) :
      Represents (.map [(.text "__bytes__", .text (Text.hexOfBytes bs))]) (.bytes bs)
  | sequence {v : Value} {xs ps : List Value} (sequence : v.sequence? = some xs)
      (length : ps.length = xs.length) (items : ∀ p x, (p, x) ∈ ps.zip xs → Represents p x) :
      Represents (.list ps) v
  | members {v : Value} {xs zs ps : List Value} (members : v.members? = some xs)
      (perm : zs.Perm xs) (length : ps.length = zs.length)
      (items : ∀ p z, (p, z) ∈ ps.zip zs → Represents p z) :
      Represents (.map [(.text "__set__", .list ps)]) v
  | map {es gs ps : List (Value × Value)} (perm : gs.Perm es) (length : ps.length = gs.length)
      (keys : ∀ p g, (p, g) ∈ ps.zip gs → Represents p.1 g.1)
      (values : ∀ p g, (p, g) ∈ ps.zip gs → Represents p.2 g.2) :
      Represents (.map [(.text "__map__", .list (ps.map pairList))]) (.map es)

/-- What the items of one list stand for has one content, item by item. -/
theorem items_sameContent {ps : List Value} (hlen : ps.length = xs.length)
    (hx : ∀ p x, (p, x) ∈ ps.zip xs → ∀ {v}, Represents p v → x.SameContent v)
    (hlen' : ps.length = ys.length) (hy : ∀ p y, (p, y) ∈ ps.zip ys → Represents p y) :
    List.Forall₂ SameContent xs ys :=
  forall₂_of_common (List.forall₂_iff_zip.mpr ⟨hlen, fun hmem => @hx _ _ hmem⟩)
    (List.forall₂_iff_zip.mpr ⟨hlen', hy _ _⟩) fun _ _ _ h h' => h h'

theorem Represents.sameContent (hu : Represents p u) (hv : Represents p v) : u.SameContent v := by
  induction hu generalizing v with
  | scalar hs =>
    cases hv with
    | scalar => exact .scalar hs
    | _ => cases hs
  | bytes bs =>
    generalize hp : Value.map _ = p at hv
    cases hv with
    | scalar hs =>
      subst hp
      cases hs
    | bytes cs =>
      have hhex : Text.hexOfBytes bs = Text.hexOfBytes cs := by simpa using hp
      rw [Text.hexOfBytes_injective hhex]
      exact .bytes cs
    | sequence => cases hp
    | members => simp at hp
    | map => simp at hp
  | @sequence u xs ps hx hlen _ ih =>
    cases hv with
    | scalar hs => cases hs
    | sequence hy hlen' hys =>
      obtain ⟨hl, hxys⟩ := List.forall₂_iff_zip.mp (items_sameContent hlen ih hlen' hys)
      exact .sequence hx hy hl fun _ _ hmem => hxys hmem
  | @members u xs zs ps hx hperm hlen _ ih =>
    generalize hp : Value.map _ = p at hv
    cases hv with
    | scalar hs =>
      subst hp
      cases hs
    | bytes => simp at hp
    | sequence => cases hp
    | @members _ ys ws qs hy hperm' hlen' hys =>
      obtain rfl : ps = qs := by simpa using hp
      have hzws := items_sameContent hlen ih hlen' hys
      obtain ⟨us, hxu, hus⟩ := List.perm_comp_forall₂ hperm.symm hzws
      obtain ⟨hl, hxu⟩ := List.forall₂_iff_zip.mp hxu
      exact .members hx hy (hus.trans hperm') hl fun _ _ hmem => hxu hmem
    | map => simp at hp
  | @map es gs ps hperm hlen _ _ ihk ihv =>
    generalize hp : Value.map _ = p at hv
    cases hv with
    | scalar hs =>
      subst hp
      cases hs
    | bytes => simp at hp
    | sequence => cases hp
    | members => simp at hp
    | @map fs hs qs hperm' hlen' hks hvs =>
      obtain rfl : ps = qs := by
        have hpairs : ps.map pairList = qs.map pairList := by simpa using hp
        exact List.map_injective_iff.mpr pairList_injective hpairs
      have hghs : List.Forall₂ (fun g h => g.1.SameContent h.1 ∧ g.2.SameContent h.2) gs hs :=
        forall₂_of_common
          (S := fun p h => Represents p.1 h.1 ∧ Represents p.2 h.2)
          (R := fun p g => (∀ {v}, Represents p.1 v → g.1.SameContent v) ∧
            ∀ {v}, Represents p.2 v → g.2.SameContent v)
          (List.forall₂_iff_zip.mpr ⟨hlen, fun hmem => ⟨@ihk _ _ hmem, @ihv _ _ hmem⟩⟩)
          (List.forall₂_iff_zip.mpr ⟨hlen', fun hmem => ⟨hks _ _ hmem, hvs _ _ hmem⟩⟩)
          fun _ _ _ hg hh => ⟨hg.1 hh.1, hg.2 hh.2⟩
      obtain ⟨us, heu, hus⟩ := List.perm_comp_forall₂ hperm.symm hghs
      obtain ⟨hl, heu⟩ := List.forall₂_iff_zip.mp heu
      exact .map (hus.trans hperm') hl (fun _ _ hmem => (heu hmem).1) fun _ _ hmem => (heu hmem).2

/-- The canonical text of a value reads as data that stands for the value. -/
theorem IsContent.exists_represents (hv : v.IsContent) (hw : v.isOverlongContent = false) :
    ∃ p, Represents p v ∧ ReadsAs v.canonical p := by
  induction hv with
  | @scalar v hs =>
    refine ⟨v, .scalar hs, ?_⟩
    cases v with
    | none => exact .none
    | bool b => exact .bool b
    | int n =>
      have hlong : ¬ writtenBound ≤ n.natAbs := fun h =>
        Bool.eq_false_iff.mp hw (isOverlongInteger_iff.mpr h)
      exact .int (Nat.lt_of_not_le hlong)
    | float x => exact .float x
    | text s => exact .text s
    | _ => cases hs
  | bytes bs => exact ⟨_, .bytes bs, (ReadsAs.text _).tagged⟩
  | @sequence v xs hx _ ih =>
    rw [isOverlongContent_of_sequence hx, List.any_eq_false] at hw
    obtain ⟨ps, hps⟩ := exists_forall₂ fun x hmem =>
      ih x hmem (Bool.eq_false_iff.mpr (hw x hmem))
    obtain ⟨hlen, hzip⟩ := List.forall₂_iff_zip.mp hps.flip
    refine ⟨.list ps, .sequence hx hlen fun _ _ hmem => (hzip hmem).1, ?_⟩
    rw [canonical_of_sequence hx]
    exact .array (List.forall₂_map_left_iff.mpr (hps.imp fun _ _ h => h.2))
  | @members v xs hx _ ih =>
    rw [isOverlongContent_of_members hx, List.any_eq_false] at hw
    have hperm := Text.sortOn_perm canonical xs
    obtain ⟨ps, hps⟩ := exists_forall₂ fun z (hmem : z ∈ Text.sortOn canonical xs) =>
      ih z (hperm.mem_iff.mp hmem) (Bool.eq_false_iff.mpr (hw z (hperm.mem_iff.mp hmem)))
    obtain ⟨hlen, hzip⟩ := List.forall₂_iff_zip.mp hps.flip
    refine ⟨_, .members hx hperm hlen fun _ _ hmem => (hzip hmem).1, ?_⟩
    rw [canonical_of_members hx, Text.sort_map]
    exact (ReadsAs.array (List.forall₂_map_left_iff.mpr (hps.imp fun _ _ h => h.2))).tagged
  | @map es _ _ ihk ihv =>
    rw [isOverlongContent, isOverlongContentEntry_eq, List.any_eq_false] at hw
    simp only [Bool.or_eq_true, not_or, Bool.not_eq_true] at hw
    have hperm := Text.sortOn_perm canonicalEntry es
    have hentry : ∀ g ∈ Text.sortOn canonicalEntry es, ∃ p : Value × Value,
        (Represents p.1 g.1 ∧ Represents p.2 g.2) ∧ ReadsAs (canonicalEntry g) (pairList p) := by
      intro g hmem
      have he := hperm.mem_iff.mp hmem
      obtain ⟨p, hp, hkey⟩ := ihk g he (hw g he).1
      obtain ⟨q, hq, hvalue⟩ := ihv g he (hw g he).2
      exact ⟨(p, q), ⟨hp, hq⟩, .array (.cons hkey (.cons hvalue .nil))⟩
    obtain ⟨ps, hps⟩ := exists_forall₂ hentry
    obtain ⟨hlen, hzip⟩ := List.forall₂_iff_zip.mp hps.flip
    refine ⟨_, .map hperm hlen (fun _ _ hmem => (hzip hmem).1.1)
      (fun _ _ hmem => (hzip hmem).1.2), ?_⟩
    rw [canonical_map, Text.sort_map]
    refine (ReadsAs.array ?_).tagged
    rw [List.forall₂_map_left_iff, List.forall₂_map_right_iff]
    exact hps.imp fun _ _ h => h.2

/-! ## Texts and digests -/

/-- Of two values with one content both can be written or neither. Values that can be written have
one canonical text exactly if they have the same content, and one digest exactly if they have the
same content or the hash of their texts collides. -/
theorem canonical_eq_iff (hu : u.IsContent) (hv : v.IsContent) :
    (u.SameContent v → u.checkContent = v.checkContent) ∧
      (u.checkContent = .ok () → v.checkContent = .ok () →
        (u.canonical = v.canonical ↔ u.SameContent v) ∧
          (u.digest = v.digest ↔
            u.SameContent v ∨ Digest.Collide u.canonical v.canonical)) := by
  refine ⟨fun h => ?_, fun hwu hwv => ?_⟩
  · rw [checkContent, checkContent, h.isOverlongContent_eq]
  · have htext : u.canonical = v.canonical ↔ u.SameContent v := by
      refine ⟨fun h => ?_, SameContent.canonical_eq⟩
      obtain ⟨p, hpu, hru⟩ := hu.exists_represents (checkContent_eq_ok.mp hwu)
      obtain ⟨q, hqv, hrv⟩ := hv.exists_represents (checkContent_eq_ok.mp hwv)
      have hpq : Except.ok p = Except.ok q := hru.read_eq.symm.trans (h ▸ hrv.read_eq)
      cases hpq
      exact hpu.sameContent hqv
    refine ⟨htext, ?_⟩
    rw [digest, digest, Digest.ofText_eq_iff, htext]

/-- A map of a list of two numbers and a set of a text and an octet. -/
def Sample.content (x : Double) : Value :=
  .map [(.text "xs", .list [.int 1, .float x]),
    (.tuple [.none, .bool true], .set [.text "b", .bytes [255]])]

/-- The same in other orders, with the other sorts of sequences and sets. -/
def Sample.reordered (x : Double) : Value :=
  .map [(.tuple [.none, .bool true], .frozenSet [.bytes [255], .text "b"]),
    (.text "xs", .tuple [.int 1, .float x])]

theorem Sample.isContent {x : Double} (hx : x ≠ .nan) :
    (content x).IsContent ∧ (reordered x).IsContent := by
  have hone : (Value.int 1).IsContent := .scalar trivial
  have hfloat : (Value.float x).IsContent := .scalar hx
  have hnone : Value.none.IsContent := .scalar trivial
  have htrue : (Value.bool true).IsContent := .scalar trivial
  have htext (s : String) : (Value.text s).IsContent := .scalar trivial
  have hbytes : (Value.bytes [255]).IsContent := .bytes _
  have hkey : (Value.tuple [.none, .bool true]).IsContent :=
    .sequence rfl (by simp [hnone, htrue])
  refine ⟨.map (by simp [htext, hkey]) ?_, .map (by simp [htext, hkey]) ?_⟩
  · have hlist : (Value.list [.int 1, .float x]).IsContent :=
      .sequence rfl (by simp [hone, hfloat])
    have hset : (Value.set [.text "b", .bytes [255]]).IsContent :=
      .members rfl (by simp [htext, hbytes])
    simp [hlist, hset]
  · have htuple : (Value.tuple [.int 1, .float x]).IsContent :=
      .sequence rfl (by simp [hone, hfloat])
    have hset : (Value.frozenSet [.bytes [255], .text "b"]).IsContent :=
      .members rfl (by simp [htext, hbytes])
    simp [htuple, hset]

/-- The order of entries and members leaves no trace, while zeros of different signs do. -/
theorem canonical_eq_iff_reordered :
    (Sample.content (.ofOrdinal false 0)).SameContent (Sample.reordered (.ofOrdinal false 0)) ∧
      (Sample.content (.ofOrdinal false 0)).digest =
        (Sample.reordered (.ofOrdinal false 0)).digest ∧
      ¬ (Sample.content (.ofOrdinal false 0)).SameContent
        (Sample.reordered (.ofOrdinal true 0)) := by
  have hplus : Double.ofOrdinal false 0 ≠ .nan := by decide
  have hminus : Double.ofOrdinal true 0 ≠ .nan := by decide
  have hwritable (s : Bool) : (Sample.content (.ofOrdinal s 0)).checkContent = .ok () ∧
      (Sample.reordered (.ofOrdinal s 0)).checkContent = .ok () := by
    simp only [checkContent_eq_ok]
    revert s
    decide +kernel
  have htext : (Sample.content (.ofOrdinal false 0)).canonical =
      (Sample.reordered (.ofOrdinal false 0)).canonical := by decide +kernel
  have hsign : (Sample.content (.ofOrdinal false 0)).canonical ≠
      (Sample.reordered (.ofOrdinal true 0)).canonical := by decide +kernel
  obtain ⟨-, hsame⟩ := canonical_eq_iff (Sample.isContent hplus).1 (Sample.isContent hplus).2
  obtain ⟨hiff, hdigest⟩ := hsame (hwritable false).1 (hwritable false).2
  obtain ⟨-, hother⟩ := canonical_eq_iff (Sample.isContent hplus).1 (Sample.isContent hminus).2
  obtain ⟨hne, -⟩ := hother (hwritable false).1 (hwritable true).2
  exact ⟨hiff.mp htext, hdigest.mpr (.inl (hiff.mp htext)), fun h => hsign (hne.mpr h)⟩

/-- A number with 4301 digits has the content of itself, but what holds it has no canonical text:
finding the identity of such a fact fails. -/
theorem canonical_overlong :
    (Value.tuple [.int writtenBound]).IsContent ∧
      (Value.tuple [.int writtenBound]).SameContent (.tuple [.int writtenBound]) ∧
      Fact.key (.tuple [.int writtenBound]) = .error .unwritableInteger := by
  have hint : (Value.int writtenBound).IsScalar := trivial
  have hlong : (Value.tuple [.int writtenBound]).isOverlongContent = true := by
    rw [isOverlongContent_of_sequence rfl, List.any_eq_true]
    exact ⟨_, List.mem_singleton_self _, isOverlongInteger_writtenBound⟩
  refine ⟨.sequence rfl (List.forall_mem_singleton.mpr (.scalar hint)),
    .sequence rfl rfl rfl fun x y hmem => ?_, ?_⟩
  · obtain ⟨rfl, rfl⟩ := Prod.mk.inj (List.mem_singleton.mp hmem)
    exact .scalar hint
  · rw [Fact.key_tuple, checkContent, hlong]
    rfl

end RuleEngine.Value
