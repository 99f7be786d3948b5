import JautoProf.ClassLayout
import JautoProf.UifResponse

/-!
# What `bc_extract_methods` accepts

On arbitrary bytes, as another agent may have written them.

Results:
1. `extraction_safe`: no access outside the array or the pool; where the function fails, it
   leaves no method behind.
2. `accepted_complete`: when an accepted array holds all that it declares.
   `overlong_accepted`: an attribute that reaches beyond the array is accepted.
3. `listed_in_full`: when each listed string has its length. `long_signature_cut`: a method
   whose string is sent as one byte.
-/

namespace JautoProf

open Wire

variable {data : List UInt8} {off off' : Nat}

/-! ## No access outside -/

/-- The reader does not access anything outside the array or the pool. -/
abbrev Inside {α : Type} (r : Reader Stop α) (data : List UInt8) (off : Nat)
    (Q : α → Nat → Prop) : Prop := Avoids .outOfBounds r data off Q

theorem inside_readU1 {dist : Nat} {Q : UInt8 → Nat → Prop} (h : off + dist + 1 ≤ data.length)
    (hQ : ∀ x, Q x off) : Inside (readU1 dist) data off Q :=
  (Avoids.ahead (Q := fun _ p => p = off) h rfl).bind fun _ _ hp => .pure (hp ▸ hQ _)

theorem inside_readU2 {dist : Nat} {Q : Nat → Nat → Prop} (h : off + dist + 2 ≤ data.length)
    (hQ : Q (beAt data (off + dist) 2) off) : Inside (readU2 dist) data off Q :=
  (Avoids.ahead (Q := fun bs p => ofBe bs = beAt data (off + dist) 2 ∧ p = off) h ⟨rfl, rfl⟩).bind
    fun _ _ hp => .pure (hp.1 ▸ hp.2 ▸ hQ)

theorem inside_readU4 {dist : Nat} {Q : Nat → Nat → Prop} (h : off + dist + 4 ≤ data.length)
    (hQ : ∀ x, Q x off) : Inside (readU4 dist) data off Q :=
  (Avoids.ahead (Q := fun _ p => p = off) h rfl).bind fun _ _ hp => .pure (hp ▸ hQ _)

theorem inside_skipAttribute {e : Stop} (he : e ≠ .outOfBounds) :
    Inside (skipAttribute e) data off fun _ _ => True :=
  (Avoids.need (Q := fun _ p => p + 6 ≤ data.length) he id).bind fun _ p hp =>
    (inside_readU4 (Q := fun _ _ => True) (by omega) fun _ => trivial).bind fun _ _ _ =>
      (Avoids.advance (Q := fun _ _ => True) trivial).bind fun _ _ _ => .need he fun _ => trivial

theorem inside_skipAttributes {e : Stop} (he : e ≠ .outOfBounds) :
    Inside (skipAttributes e) data off fun _ _ => True := by
  refine (Avoids.need (Q := fun _ p => p + 2 ≤ data.length) he id).bind fun _ p hp => ?_
  refine (inside_readU2 (Q := fun _ _ => True) hp trivial).bind fun n _ _ => ?_
  refine (Avoids.advance (Q := fun _ _ => True) trivial).bind fun _ _ _ => ?_
  exact (Avoids.times (P := fun _ => True) (fun _ _ => inside_skipAttribute he) n trivial).bind
    fun _ _ _ => .pure trivial

theorem inside_skipField : Inside skipField data off fun _ _ => True :=
  (Avoids.need (Q := fun _ _ => True) (by decide) fun _ => trivial).bind fun _ _ _ =>
    (Avoids.advance (Q := fun _ _ => True) trivial).bind fun _ _ _ =>
      inside_skipAttributes (by decide)

theorem inside_parseCpFixed (size : Nat) : Inside (parseCpFixed size) data off fun _ _ => True :=
  (Avoids.need (Q := fun _ _ => True) (by decide) fun _ => trivial).bind fun _ _ _ => .pure trivial

theorem inside_parseCpBody (heap : BcHeap) (tag : UInt8) :
    Inside (parseCpBody heap tag) data off fun _ _ => True := by
  unfold parseCpBody
  cases CpTag.ofCode tag with
  | none => exact .fail (by decide)
  | some t =>
    cases t with
    | utf8 =>
      refine (Avoids.need (Q := fun _ p => p = off ∧ off + 2 ≤ data.length) (by decide)
        fun h => ⟨rfl, h⟩).bind fun _ p hp => ?_
      obtain ⟨rfl, hp⟩ := hp
      refine (inside_readU2 (Q := fun _ q => q = p) hp rfl).bind fun len q hq => ?_
      subst hq
      refine (Avoids.need (Q := fun _ p => p + 2 + len ≤ data.length) (by decide)
        fun h => by omega).bind fun _ p hlen => ?_
      refine (Avoids.position (Q := fun _ q => q = p) rfl).bind fun pos q hq => ?_
      subst hq
      split
      · exact .fail (by decide)
      · exact (Avoids.ahead (Q := fun _ _ => True) hlen trivial).bind fun _ _ _ => .pure trivial
    | _ => exact inside_parseCpFixed _

theorem inside_storeUtf8 {pool : List (Option CStr)} {i : Nat} (hi : i < pool.length) (tag : UInt8)
    (s : Option CStr) :
    Inside (storeUtf8 pool i tag s) data off fun pool' _ => pool'.length = pool.length := by
  unfold storeUtf8 poolSet
  rw [if_pos hi]
  split
  · exact .pure List.length_set
  · exact .pure rfl

theorem inside_cpEntries (heap : BcHeap) {cpCount : Nat} (i : Nat) {pool : List (Option CStr)}
    (hpool : pool.length = cpCount) :
    Inside (cpEntries heap cpCount i pool) data off fun pool' _ => pool'.length = cpCount := by
  induction hk : cpCount - i using Nat.strong_induction_on generalizing i pool off with
  | _ k ih =>
    subst hk
    by_cases hi : i < cpCount
    · rw [cpEntries_eq heap hi]
      refine (Avoids.need (Q := fun _ p => p + 1 ≤ data.length) (by decide) id).bind fun _ p hp => ?_
      refine (inside_readU1 (Q := fun _ _ => True) hp fun _ => trivial).bind fun tag _ _ => ?_
      refine (Avoids.advance (Q := fun _ _ => True) trivial).bind fun _ _ _ => ?_
      refine (inside_parseCpBody heap tag).bind fun r _ _ => ?_
      refine (inside_storeUtf8 (hpool ▸ hi) tag r.2).bind fun pool' _ hlen => ?_
      refine (Avoids.advance (Q := fun _ _ => True) trivial).bind fun _ _ _ => ?_
      refine ih _ ?_ _ (hlen.trans hpool) rfl
      split <;> omega
    · rw [cpEntries, if_neg hi]
      exact .pure hpool

theorem inside_poolGet {pool : List (Option CStr)} {i : Nat} (hi : i < pool.length) :
    Inside (poolGet pool i) data off fun _ _ => True := by
  unfold poolGet
  rw [List.getElem?_eq_getElem hi]
  exact .pure trivial

theorem inside_extractMethod (heap : BcHeap) (pool : List (Option CStr)) :
    Inside (extractMethod heap pool.length pool) data off fun _ _ => True := by
  refine (Avoids.need (Q := fun _ p => p + 6 ≤ data.length) (by decide) id).bind fun _ p hp => ?_
  refine (Avoids.advance (Q := fun _ q => q = p + 2) rfl).bind fun _ q hq => ?_
  subst hq
  refine (inside_readU2 (Q := fun _ q => q = p + 2) (by omega) rfl).bind fun nameIdx q hq => ?_
  subst hq
  refine (Avoids.advance (Q := fun _ q => q = p + 2 + 2) rfl).bind fun _ q hq => ?_
  subst hq
  refine (inside_readU2 (Q := fun _ _ => True) (by omega) trivial).bind fun descIdx _ _ => ?_
  refine (Avoids.advance (Q := fun _ _ => True) trivial).bind fun _ _ _ => ?_
  refine (inside_skipAttributes (by decide)).bind fun _ _ _ => ?_
  split
  · exact .pure trivial
  · next hout =>
    obtain ⟨hname, hdesc⟩ := not_or.mp hout
    refine (inside_poolGet (Nat.lt_of_not_le hname)).bind fun name _ _ => ?_
    refine (inside_poolGet (Nat.lt_of_not_le hdesc)).bind fun desc _ _ => ?_
    split
    · refine (Avoids.position (Q := fun _ _ => True) trivial).bind fun pos _ _ => ?_
      split
      · exact .fail (by decide)
      · split
        · exact .fail (by decide)
        · exact .pure trivial
    · exact .pure trivial

theorem inside_extractMethods (heap : BcHeap) (pool : List (Option CStr)) (n : Nat)
    (methods : List RawPstring) :
    Inside (extractMethods heap pool.length pool n methods) data off fun _ _ => True := by
  induction n generalizing methods off with
  | zero => exact .pure trivial
  | succ n ih => exact (inside_extractMethod heap pool).bind fun _ _ _ => ih _

/-- A part that starts with the number of its items. -/
theorem inside_count {β : Type} {e : Stop} {f : Nat → Reader Stop β} {Q : β → Nat → Prop}
    (he : e ≠ .outOfBounds) (hf : ∀ n p, Inside (f n) data p Q) :
    Inside (Reader.need 2 e >>= fun _ => readU2 0 >>= fun n => Reader.advance 2 >>= fun _ => f n)
      data off Q :=
  (Avoids.need (Q := fun _ p => p + 2 ≤ data.length) he id).bind fun _ _ hp =>
    (inside_readU2 (Q := fun _ _ => True) hp trivial).bind fun n _ _ =>
      (Avoids.advance (Q := fun _ _ => True) trivial).bind fun _ p _ => hf n p

/-- A part of a size that is known before. -/
theorem inside_block {β : Type} {e : Stop} {n : Nat} {r : Reader Stop β} {Q : β → Nat → Prop}
    (he : e ≠ .outOfBounds) (hr : ∀ p, Inside r data p Q) :
    Inside (Reader.need n e >>= fun _ => Reader.advance n >>= fun _ => r) data off Q :=
  (Avoids.need (Q := fun _ _ => True) he fun _ => trivial).bind fun _ _ _ =>
    (Avoids.advance (Q := fun _ _ => True) trivial).bind fun _ p _ => hr p

theorem inside_bcExtract (heap : BcHeap) (methods : List RawPstring) :
    Inside (bcExtract heap methods) data off fun _ _ => True := by
  unfold bcExtract
  refine inside_block (by decide) fun _ => inside_count (by decide) fun cpCount p => ?_
  split
  · exact .fail (by decide)
  · split
    · exact .fail (by decide)
    · refine (inside_cpEntries heap 1 List.length_replicate).bind fun pool _ hpool => ?_
      refine inside_block (by decide) fun _ => inside_count (by decide) fun ifaceCount p => ?_
      refine inside_block (by decide) fun _ => inside_count (by decide) fun fieldCount p => ?_
      refine (Avoids.times (P := fun _ => True) (fun _ _ => inside_skipField) fieldCount
        trivial).bind fun _ _ _ => ?_
      refine inside_count (by decide) fun methodCount p => ?_
      rw [← hpool]
      exact inside_extractMethods heap pool methodCount methods

/-- For every array and however the allocations turn out: `bc_extract_methods` returns 0 or -1
without an access outside the array or the constant pool, and where it returns -1 the list
that was empty is empty. -/
theorem extraction_safe (heap : BcHeap) (data : List UInt8) :
    ∃ result listed, bcExtractMethods heap data [] = some (result, listed) ∧
      (result = 0 ∨ result = -1 ∧ listed = []) := by
  have hinside : Inside (bcExtract heap []) data 0 fun _ _ => True := inside_bcExtract heap []
  have hne := hinside.ne
  unfold bcExtractMethods Reader.run
  cases hrun : bcExtract heap [] data 0 with
  | ok p => exact ⟨0, p.1, rfl, .inl rfl⟩
  | error stop =>
    cases stop with
    | fail => exact ⟨-1, [], rfl, .inr ⟨rfl, rfl⟩⟩
    | failMethods => exact ⟨-1, [], rfl, .inr ⟨rfl, rfl⟩⟩
    | outOfBounds => exact absurd hrun hne

/-- What the function returns on any list. -/
theorem bcExtractMethods_result {heap : BcHeap} {methods listed : List RawPstring} {result : Int}
    (h : bcExtractMethods heap data methods = some (result, listed)) : result = 0 ∨ result = -1 := by
  unfold bcExtractMethods at h
  split at h
  · exact .inl (Prod.mk.inj (Option.some.inj h)).1.symm
  · exact .inr (Prod.mk.inj (Option.some.inj h)).1.symm
  · exact .inr (Prod.mk.inj (Option.some.inj h)).1.symm
  · cases h

/-! ## One layout -/

theorem CpTag.code_inj {t t' : CpTag} (h : t.code = t'.code) : t = t' := by
  have := t.ofCode_code
  rw [h, t'.ofCode_code] at this
  exact (Option.some.inj this).symm

theorem ConstantIn.unique {t t' : CpTag} {mid mid' : Nat} (h : ConstantIn data t off mid)
    (h' : ConstantIn data t' off mid') : t = t' ∧ mid = mid' := by
  obtain rfl := CpTag.code_inj (h.code.symm.trans h'.code)
  exact ⟨rfl, h.ends.trans h'.ends.symm⟩

theorem Constants.unique {cpCount i p p' : Nat} {rows rows' : List (Nat × Nat)}
    (h : Constants data cpCount i off rows p) (h' : Constants data cpCount i off rows' p') :
    rows = rows' ∧ p = p' := by
  induction h generalizing rows' with
  | nil off hi =>
    cases h' with
    | nil => exact ⟨rfl, rfl⟩
    | cons hi' => omega
  | cons hi hc _ ih =>
    cases h' with
    | nil _ hi' => omega
    | cons _ hc' hs' =>
      obtain ⟨rfl, rfl⟩ := hc.unique hc'
      obtain ⟨rfl, rfl⟩ := ih hs'
      exact ⟨rfl, rfl⟩

theorem AttributeIn.unique {size : Nat → Nat} (p q q' : Nat) (h : AttributeIn size data p q)
    (h' : AttributeIn size data p q') : q = q' :=
  h.ends.trans h'.ends.symm

theorem MemberIn.unique {attr : Nat → Nat → Prop}
    (hfun : ∀ p q q', attr p q → attr p q' → q = q') (p q q' : Nat) (h : MemberIn attr data p q)
    (h' : MemberIn attr data p q') : q = q' := by
  obtain ⟨-, -, offs, hlen, hrows⟩ := h
  obtain ⟨-, -, offs', hlen', hrows'⟩ := h'
  exact (hrows.unique hrows' (hlen.trans hlen'.symm) hfun).2

/-- An array has one layout. -/
theorem Layout.Lies.unique {attr : Nat → Nat → Prop} {l l' : Layout}
    (hfun : ∀ p q q', attr p q → attr p q' → q = q') (h : l.Lies attr data)
    (h' : l'.Lies attr data) : l = l' := by
  have hmember : ∀ p q q', MemberIn attr data p q → MemberIn attr data p q' → q = q' :=
    MemberIn.unique hfun
  obtain ⟨rows, poolEnd, ifacesEnd, fields, fieldsEnd, methods, methodsEnd⟩ := l
  obtain ⟨rows', poolEnd', ifacesEnd', fields', fieldsEnd', methods', methodsEnd'⟩ := l'
  obtain ⟨rfl, rfl⟩ := h.constants.unique h'.constants
  obtain rfl := h.interfaces.trans h'.interfaces.symm
  obtain ⟨rfl, rfl⟩ := h.fields.unique h'.fields (h.fields_length.trans h'.fields_length.symm) hmember
  obtain ⟨rfl, rfl⟩ :=
    h.methods.unique h'.methods (h.methods_length.trans h'.methods_length.symm) hmember
  rfl

theorem MemberIn.mono {attr attr' : Nat → Nat → Prop} (himp : ∀ p q, attr p q → attr' p q) {p q : Nat}
    (h : MemberIn attr data p q) : MemberIn attr' data p q := by
  obtain ⟨hle, hcount, offs, hlen, hrows⟩ := h
  exact ⟨hle, hcount, offs, hlen, hrows.mono himp⟩

theorem Layout.Lies.mono {attr attr' : Nat → Nat → Prop} {l : Layout}
    (himp : ∀ p q, attr p q → attr' p q) (h : l.Lies attr data) : l.Lies attr' data :=
  { h with
    fields := h.fields.mono fun _ _ => MemberIn.mono himp
    methods := h.methods.mono fun _ _ => MemberIn.mono himp }

/-! ## What an accepted array holds -/

/-- The array starts with a class-file structure that lies inside it as it declares. -/
def Complete (data : List UInt8) : Prop := ∃ l : Layout, l.Lies (AttributeIn declaredSize data) data

/-- In the members from `start` on, an attribute stands at `p`. -/
def HasAttribute (data : List UInt8) (start count p : Nat) : Prop :=
  ∃ front m attrs, front.length < count ∧
    Rows (MemberIn (AttributeIn declaredSize data) data) front start m ∧
    attrs.length < beAt data (m + 6) 2 ∧ Rows (AttributeIn declaredSize data) attrs (m + 8) p

/-- The structure comes to an attribute that declares more bytes than remain. -/
def Overruns (data : List UInt8) : Prop :=
  ∃ rows poolEnd ifacesEnd p, Constants data (beAt data 8 2) 1 10 rows poolEnd ∧
    ifacesEnd = poolEnd + 8 + 2 * beAt data (poolEnd + 6) 2 ∧
    (HasAttribute data (ifacesEnd + 2) (beAt data ifacesEnd 2) p ∨
      ∃ fields fieldsEnd, fields.length = beAt data ifacesEnd 2 ∧
        Rows (MemberIn (AttributeIn declaredSize data) data) fields (ifacesEnd + 2) fieldsEnd ∧
        HasAttribute data (fieldsEnd + 2) (beAt data fieldsEnd 2) p) ∧
    data.length < p + 6 + beAt data (p + 2) 4

theorem HasAttribute.fits {start p stop : Nat} {offs : List Nat}
    (h : HasAttribute data start offs.length p)
    (hrows : Rows (MemberIn (AttributeIn declaredSize data) data) offs start stop) :
    p + 6 + beAt data (p + 2) 4 ≤ data.length := by
  obtain ⟨front, m, attrs, hlt, hfront, hlt', hattrs⟩ := h
  obtain ⟨q, -, -, offs', hlen, hrows'⟩ :=
    hrows.next hfront hlt (MemberIn.unique AttributeIn.unique)
  obtain ⟨q', hattr⟩ := hrows'.next hattrs (hlen ▸ hlt') AttributeIn.unique
  have hends := hattr.ends
  have hle := hattr.le
  unfold declaredSize at hends
  omega

/-- Where an attribute reaches beyond the array, the structure is not complete. -/
theorem Overruns.not_complete (h : Overruns data) : ¬ Complete data := by
  rintro ⟨l, hl⟩
  obtain ⟨rows, poolEnd, ifacesEnd, p, hrows, hifaces, hattr, hlt⟩ := h
  obtain ⟨-, rfl⟩ := hl.constants.unique hrows
  obtain rfl := hl.interfaces.trans hifaces.symm
  have hfits : p + 6 + beAt data (p + 2) 4 ≤ data.length := by
    rcases hattr with hattr | ⟨fields, fieldsEnd, hlen, hfields, hattr⟩
    · rw [← hl.fields_length] at hattr
      exact hattr.fits hl.fields
    · obtain ⟨-, rfl⟩ := hl.fields.unique hfields (hl.fields_length.trans hlen.symm)
        (MemberIn.unique AttributeIn.unique)
      rw [← hl.methods_length] at hattr
      exact hattr.fits hl.methods
  omega

/-- The attribute at a position declares less than what wraps its sum around. -/
def Unwrapped (data : List UInt8) (off : Nat) : Prop := beAt data (off + 2) 4 < 4294967290

theorem wrappedSize_eq {n : Nat} (h : n < 4294967290) : wrappedSize n = declaredSize n :=
  Nat.mod_eq_of_lt (by omega)

theorem AttributeIn.declared (h : AttributeIn wrappedSize data off off') (hsmall : Unwrapped data off) :
    AttributeIn declaredSize data off off' :=
  ⟨h.header, wrappedSize_eq hsmall ▸ h.ends, h.le⟩

theorem AttributeIn.wrapped (hdata : data.length < 2147483648)
    (h : AttributeIn declaredSize data off off') :
    AttributeIn wrappedSize data off off' ∧ Unwrapped data off := by
  have hends := h.ends
  have hle := h.le
  have hsmall : Unwrapped data off := by
    unfold Unwrapped
    unfold declaredSize at hends
    omega
  exact ⟨⟨h.header, (wrappedSize_eq hsmall).symm ▸ hends, hle⟩, hsmall⟩

/-- Every allocation succeeds. -/
def ampleHeap : BcHeap := ⟨true, fun _ => true, fun _ => true, fun _ => true⟩

theorem ampleHeap_ample : ampleHeap.Ample := ⟨rfl, fun _ => rfl, fun _ => rfl, fun _ => rfl⟩

theorem bcExtractMethods_of_layout {l : Layout} (h : l.Lies (AttributeIn wrappedSize data) data) :
    bcExtractMethods ampleHeap data [] =
      some (0, l.methods.filterMap (listedAt (l.pool data) data)) :=
  bcExtractMethods_zero.mpr ⟨_, bcExtract_of_layout ampleHeap_ample h []⟩

/-- No attribute that the function walks over wraps the sum around. -/
def NoneWraps (data : List UInt8) : Prop :=
  ∀ l : Layout, l.Lies (AttributeIn wrappedSize data) data →
    l.Lies (fun p q => AttributeIn wrappedSize data p q ∧ Unwrapped data p) data

theorem Complete.noneWraps (hdata : data.length < 2147483648) (h : Complete data) :
    NoneWraps data := by
  intro l hl
  obtain ⟨l', hl'⟩ := h
  have hsmall := hl'.mono fun p q => AttributeIn.wrapped hdata
  obtain rfl := hl.unique AttributeIn.unique (hsmall.mono fun p q h => h.1)
  exact hsmall

/-- For every array of less than 2^31 bytes: that an accepted array has a complete structure,
and one with an attribute that declares more than the remaining bytes is rejected, holds
exactly if no attribute that the function walks over declares 2^32 - 6 bytes or more. -/
theorem accepted_complete (data : List UInt8) (hdata : data.length < 2147483648) :
    (∀ heap methods result listed, bcExtractMethods heap data methods = some (result, listed) →
      (result = 0 → Complete data) ∧ (Overruns data → result = -1)) ↔
    NoneWraps data := by
  constructor
  · intro h l hl
    exact ((h _ [] _ _ (bcExtractMethods_of_layout hl)).1 rfl).noneWraps hdata l hl
  · intro h heap methods result listed hrun
    have hcomplete : result = 0 → Complete data := by
      rintro rfl
      obtain ⟨off', hok⟩ := bcExtractMethods_zero.mp hrun
      obtain ⟨l, hl, -⟩ := bcExtract_layout hok
      exact ⟨l, (h l hl).mono fun p q hattr => hattr.1.declared hattr.2⟩
    refine ⟨hcomplete, fun hover => ?_⟩
    rcases bcExtractMethods_result hrun with hzero | hone
    · exact absurd (hcomplete hzero) hover.not_complete
    · exact hone

/-- A class without constants and fields, and with one method, which has one attribute that
declares the given length. -/
def oneAttribute (attrLen : List UInt8) : List UInt8 :=
  [0xca, 0xfe, 0xba, 0xbe, 0, 0, 0, 61, 0, 1, 0, 0x21, 0, 0, 0, 0, 0, 0, 0, 0, 0, 1, 0, 1, 0, 0, 0, 0,
    0, 1, 0, 0] ++ attrLen

def oneAttributeLayout (methodsEnd : Nat) : Layout := ⟨[], 10, 18, [], 20, [22], methodsEnd⟩

theorem oneAttribute_lies {size : Nat → Nat} {a b c d : UInt8} {methodsEnd : Nat}
    (hend : methodsEnd = 30 + size (beAt (oneAttribute [a, b, c, d]) 32 4))
    (hle : methodsEnd ≤ 36) :
    (oneAttributeLayout methodsEnd).Lies (AttributeIn size (oneAttribute [a, b, c, d]))
      (oneAttribute [a, b, c, d]) where
  header := Nat.le_of_ble_eq_true rfl
  count := Nat.le_of_ble_eq_true rfl
  constants := .nil 10 (Nat.le_of_ble_eq_true rfl)
  flags := Nat.le_of_ble_eq_true rfl
  interfaces := rfl
  interfaces_le := Nat.le_of_ble_eq_true rfl
  fieldCount := Nat.le_of_ble_eq_true rfl
  fields_length := rfl
  fields := .nil 20
  methodCount := Nat.le_of_ble_eq_true rfl
  methods_length := rfl
  methods := .cons ⟨Nat.le_of_ble_eq_true rfl, Nat.le_of_ble_eq_true rfl, [30], rfl,
    .cons ⟨Nat.le_of_ble_eq_true rfl, hend, hle⟩ (.nil _)⟩ (.nil _)

theorem accepted_complete_empty :
    bcExtractMethods ampleHeap (oneAttribute [0, 0, 0, 0]) [] = some (0, []) ∧
      Complete (oneAttribute [0, 0, 0, 0]) := by
  have hwrapped : (oneAttributeLayout 36).Lies (AttributeIn wrappedSize (oneAttribute [0, 0, 0, 0]))
      (oneAttribute [0, 0, 0, 0]) := oneAttribute_lies rfl (by decide)
  have hnone : NoneWraps (oneAttribute [0, 0, 0, 0]) :=
    Complete.noneWraps (by decide) ⟨oneAttributeLayout 36, oneAttribute_lies rfl (by decide)⟩
  have hrun := bcExtractMethods_of_layout hwrapped
  exact ⟨hrun, ((accepted_complete _ (by decide)).mpr hnone _ _ _ _ hrun).1 rfl⟩

/-- An attribute that declares 2^32 - 6 bytes is the last thing in an array of 36 bytes. -/
theorem overlong_accepted :
    (oneAttribute [0xff, 0xff, 0xff, 0xfa]).length < 2147483648 ∧
      bcExtractMethods ampleHeap (oneAttribute [0xff, 0xff, 0xff, 0xfa]) [] = some (0, []) ∧
      ¬ Complete (oneAttribute [0xff, 0xff, 0xff, 0xfa]) ∧
      Overruns (oneAttribute [0xff, 0xff, 0xff, 0xfa]) := by
  have hover : Overruns (oneAttribute [0xff, 0xff, 0xff, 0xfa]) :=
    ⟨[], 10, 18, 30, .nil 10 (by decide), rfl,
      .inr ⟨[], 20, rfl, .nil 20, [], 22, [], by decide, .nil 22, by decide, .nil 30⟩, by decide⟩
  have hlies : (oneAttributeLayout 30).Lies (AttributeIn wrappedSize (oneAttribute
      [0xff, 0xff, 0xff, 0xfa])) (oneAttribute [0xff, 0xff, 0xff, 0xfa]) :=
    oneAttribute_lies rfl (by decide)
  exact ⟨by decide, bcExtractMethods_of_layout hlies, hover.not_complete, hover⟩

/-! ## The sizes of the listed strings -/

/-- What is copied from a string into a response: its size field, and as many bytes. -/
def RawPstring.sent (ps : RawPstring) : Pstring :=
  ⟨ps.str.take ps.size.toNat,
    Nat.le_trans (List.length_take_le _ _) (Nat.le_of_lt_succ ps.size.toNat_lt)⟩

/-- The string has its length, and its name and descriptor are in it. -/
theorem rawSignature_exact (name desc : CStr) :
    (rawSignature name desc).size.toNat = (rawSignature name desc).str.length ↔
      name.val.length + 1 + desc.val.length ≤ pstrMax := by
  have hlen : (rawSignature name desc).str.length = name.val.length + 1 + desc.val.length := by
    simp only [rawSignature, List.length_append, List.length_cons]
    omega
  have hsize : (rawSignature name desc).size.toNat =
      (name.val.length + 1 + desc.val.length) % 65536 := UInt16.toNat_ofNat'
  rw [hlen, hsize]
  unfold pstrMax
  omega

theorem RawPstring.sent_str {ps : RawPstring} (h : ps.size.toNat = ps.str.length) :
    ps.sent.str = ps.str := by
  show ps.str.take ps.size.toNat = ps.str
  rw [h, List.take_length]

theorem writeStrings_sent {listed : List RawPstring}
    (h : ∀ ps ∈ listed, ps.size.toNat = ps.str.length) :
    writeStrings (listed.map RawPstring.sent) =
      listed.flatMap fun ps => le 2 ps.str.length ++ ps.str := by
  unfold writeStrings
  rw [List.flatMap_map]
  refine List.flatMap_congr fun ps hps => ?_
  rw [Pstring.bytes, RawPstring.sent_str (h ps hps)]

/-- The listed strings are those of the methods with a name and a descriptor. -/
theorem mem_listed {heap : BcHeap} {listed : List RawPstring}
    (h : bcExtractMethods heap data [] = some (0, listed)) {l : Layout}
    (hl : l.Lies (AttributeIn wrappedSize data) data) {ps : RawPstring} :
    ps ∈ listed ↔ ∃ p ∈ l.methods, ∃ name desc,
      Named (l.pool data) data p name desc ∧ rawSignature name desc = ps := by
  obtain ⟨off', hok⟩ := bcExtractMethods_zero.mp h
  obtain ⟨l', hl', rfl⟩ := bcExtract_layout hok
  obtain rfl := hl'.unique AttributeIn.unique hl
  rw [List.nil_append, List.mem_filterMap]
  simp only [listedAt_eq_some]

/-- For every array that is accepted: each listed string carries its length, and the response
with the methods of the class has each listed string in full, exactly if no method has a name
and a descriptor that with the colon make more than 65535 bytes. -/
theorem listed_in_full {heap : BcHeap} {listed : List RawPstring}
    (h : bcExtractMethods heap data [] = some (0, listed)) :
    ((∀ ps ∈ listed, ps.size.toNat = ps.str.length) ∧
      ∀ ci msg, ci.methods = listed.map RawPstring.sent →
        uifRespondClassMethods (some ci) true = some msg →
        msg.body = le 4 classMethodsRpOk ++ (le 4 listed.length ++
          listed.flatMap fun ps => le 2 ps.str.length ++ ps.str)) ↔
    ∀ l : Layout, l.Lies (AttributeIn wrappedSize data) data → ∀ p ∈ l.methods, ∀ name desc,
      Named (l.pool data) data p name desc → name.val.length + 1 + desc.val.length ≤ pstrMax := by
  constructor
  · intro hfull l hl p hp name desc hnamed
    exact (rawSignature_exact name desc).mp
      (hfull.1 _ ((mem_listed h hl).mpr ⟨p, hp, name, desc, hnamed, rfl⟩))
  · intro hshort
    obtain ⟨off', hok⟩ := bcExtractMethods_zero.mp h
    obtain ⟨l, hl, -⟩ := bcExtract_layout hok
    have hexact : ∀ ps ∈ listed, ps.size.toNat = ps.str.length := by
      intro ps hps
      obtain ⟨p, hp, name, desc, hnamed, rfl⟩ := (mem_listed h hl).mp hps
      exact (rawSignature_exact name desc).mpr (hshort l hl p hp name desc hnamed)
    refine ⟨hexact, fun ci msg hci hmsg => ?_⟩
    rw [sizedResponse_body hmsg]
    show le 4 classMethodsRpOk ++ (le 4 ci.methods.length ++ writeStrings ci.methods) = _
    rw [hci, List.length_map, writeStrings_sent hexact]

theorem noAttributes_lt : ([] : List Attribute).length < 65536 := by decide

/-- A class with one method, with the given name and descriptor. -/
def oneMethod (name desc : CStr) (hname : name.val.length < 65536) (hdesc : desc.val.length < 65536) :
    ClassFile where
  magic := 0xcafebabe
  minor := 0
  major := 61
  constants := [.utf8 name hname, .utf8 desc hdesc]
  access := 0x21
  thisClass := 0
  superClass := 0
  interfaces := []
  fields := []
  methods := [⟨1, 1, 2, [], noAttributes_lt⟩]
  slots_lt := Nat.le_of_ble_eq_true rfl
  interfaces_lt := by decide
  fields_lt := by decide
  methods_lt := by decide

theorem bcExtractMethods_oneMethod (name desc : CStr) (hname : name.val.length < 65536)
    (hdesc : desc.val.length < 65536) :
    bcExtractMethods ampleHeap (oneMethod name desc hname hdesc).encode [] =
      some (0, [RawPstring.ofBytes (name.val ++ ascii ":" ++ desc.val)]) := by
  have hlen : (oneMethod name desc hname hdesc).encode.length < 2147483648 := by
    simp only [oneMethod, ClassFile.encode, Constant.encode, Member.encode, encodeAttributes,
      List.flatMap_cons, List.flatMap_nil, List.length_append, u1, u2, u4, be_length,
      List.length_cons, List.length_nil]
    omega
  have hrun := bcExtractMethods_encode ampleHeap_ample hlen []
  rw [List.append_nil] at hrun
  exact hrun

theorem fName_noNul : (0 : UInt8) ∉ ascii "f" := by decide

theorem voidDesc_noNul : (0 : UInt8) ∉ ascii "()V" := by decide

def fName : CStr := ⟨ascii "f", fName_noNul⟩

def voidDesc : CStr := ⟨ascii "()V", voidDesc_noNul⟩

theorem fName_lt : fName.val.length < 65536 := by decide

theorem voidDesc_lt : voidDesc.val.length < 65536 := by decide

/-- The class of `f:()V`. -/
def shortMethod : ClassFile := oneMethod fName voidDesc fName_lt voidDesc_lt

theorem listed_in_full_short :
    ∃ msg, uifRespondClassMethods (some (ciAlloc ⟨ascii "A", by decide⟩ shortMethod.encode
        [RawPstring.sent ⟨5, ascii "f:()V"⟩] none)) true = some msg ∧
      msg.body = [0, 0, 0, 0, 1, 0, 0, 0, 5, 0] ++ ascii "f:()V" := by
  have hrun : bcExtractMethods ampleHeap shortMethod.encode [] = some (0, [⟨5, ascii "f:()V"⟩]) :=
    bcExtractMethods_oneMethod _ _ _ _
  have hfull := (listed_in_full hrun).mpr fun l hl p hp name desc hnamed => by
    have hmem := (mem_listed hrun hl).mpr ⟨p, hp, name, desc, hnamed, rfl⟩
    refine (rawSignature_exact name desc).mp ?_
    rw [List.mem_singleton.mp hmem]
    decide
  have hmsg : uifRespondClassMethods (some (ciAlloc ⟨ascii "A", by decide⟩ shortMethod.encode
      [RawPstring.sent ⟨5, ascii "f:()V"⟩] none)) true = some _ := sizedResponse_eq (by decide) _ _
  exact ⟨_, hmsg, hfull.2 _ _ rfl hmsg⟩

/-- A name of `n` bytes. -/
def longName (n : Nat) : CStr :=
  ⟨List.replicate n 97, fun h => absurd (List.eq_of_mem_replicate h) (by decide)⟩

theorem longName_length (n : Nat) : (longName n).val.length = n := List.length_replicate

theorem longName_lt {n : Nat} (h : n < 65536) : (longName n).val.length < 65536 :=
  (longName_length n).symm ▸ h

/-- A class with a method that has a name of `n` bytes and the descriptor `()V`. -/
def longMethod (n : Nat) (h : n < 65536) : ClassFile :=
  oneMethod (longName n) voidDesc (longName_lt h) voidDesc_lt

theorem bcExtractMethods_longMethod {n : Nat} (h : n < 65536) :
    ∃ ps, bcExtractMethods ampleHeap (longMethod n h).encode [] = some (0, [ps]) ∧
      ps.str.length = n + 4 ∧ ps.size.toNat = (n + 4) % 65536 := by
  have hlen : ((longName n).val ++ ascii ":" ++ ascii "()V").length = n + 4 := by
    rw [List.length_append, List.length_append, longName_length]
    rfl
  have hsize : (RawPstring.ofBytes ((longName n).val ++ ascii ":" ++ ascii "()V")).size.toNat =
      (n + 4) % 65536 := by
    rw [← hlen]
    exact UInt16.toNat_ofNat'
  exact ⟨_, bcExtractMethods_oneMethod _ _ _ _, hlen, hsize⟩

/-- The string of a method has 65537 bytes and the size 1, and its first byte is what a response
carries. -/
theorem long_signature_cut :
    ∃ ps, bcExtractMethods ampleHeap (longMethod 65533 (by decide)).encode [] = some (0, [ps]) ∧
      ps.str.length = 65537 ∧ ps.size.toNat = 1 ∧ ps.sent.str.length = 1 := by
  obtain ⟨ps, hrun, hlen, hsize⟩ := bcExtractMethods_longMethod (n := 65533) (by decide)
  refine ⟨ps, hrun, hlen, hsize, ?_⟩
  show (ps.str.take ps.size.toNat).length = 1
  rw [List.length_take, hsize, hlen]
  rfl

end JautoProf
