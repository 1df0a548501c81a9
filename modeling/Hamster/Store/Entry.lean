import Hamster.Lib.RecordFile

/-!
# Database entries

`Hamsterdesc` as the x86-64 compiler lays it out: 96 bytes, with padding behind
the uid and at the end. `hmstr_new` zeroes the padding, but an entry read from a
damaged file may carry anything there, so it is kept.
-/
namespace Hamster.Store.Entry

open Lib.Bytes Lib.Clock Lib.Posix Lib.RecordFile

/-! ## hamsterlib.h -/

/-- `HMSTR_MAX_NAME` -/
abbrev hmstrMaxName : Nat := 31

def hmstrBasePrice : Nat := 17
def hmstrStayPrice : Nat := 5
def hmstrCarePrice : Nat := 1
def hmstrFeedPrice : Nat := 2

def hmstrErrNameTooLong : BitVec 32 := -1
def hmstrErrExists : BitVec 32 := -2
def hmstrErrNotFound : BitVec 32 := -3
def hmstrErrStore : BitVec 32 := -100
def hmstrErrCorrupt : BitVec 32 := -101

/-- `struct hmstr_state` -/
structure HmstrState where
  treatsLeft : BitVec 16
  rounds : BitVec 32
  cost : BitVec 16
  deriving DecidableEq

/-! ## hamsterdef.h -/

/-- `DATAFILE` and `INTERMEDIATE_FILE` -/
inductive StoreFile
  | datafile
  | intermediateFile
  deriving DecidableEq

abbrev World := Sys StoreFile

/-- `HMSTR_RPM` -/
def hmstrRpm : Nat := 25

/-- `char[HMSTR_MAX_NAME+1]` -/
abbrev NameField := List.Vector Byte 32

structure Hamsterdesc where
  uid : BitVec 32
  padding : BitVec 32
  admissionTime : Timeval
  owner : NameField
  name : NameField
  price : BitVec 16
  treatsLeft : BitVec 16
  tailPadding : BitVec 32
  deriving DecidableEq

/-- `sizeof(Hamsterdesc)` -/
abbrev sizeofHamsterdesc : Nat := 96

namespace Hamsterdesc

/-- The entry's bytes in memory and in the file. -/
def toBytes (h : Hamsterdesc) : List Byte :=
  leBytes 4 h.uid.toNat ++ (leBytes 4 h.padding.toNat ++
    (leBytes 8 h.admissionTime.tvSec.toNat ++ (leBytes 8 h.admissionTime.tvUsec.toNat ++
      (h.owner.val ++ (h.name.val ++
        (leBytes 2 h.price.toNat ++ (leBytes 2 h.treatsLeft.toNat ++
          leBytes 4 h.tailPadding.toNat)))))))

def intField (n width off : Nat) (bs : List Byte) : BitVec n :=
  BitVec.ofNat n (leNat ((bs.drop off).take width))

def charField (off : Nat) (bs : List Byte) : NameField :=
  ⟨((bs.drop off).take 32) ++ List.replicate (32 - ((bs.drop off).take 32).length) 0, by
    simp only [List.length_append, List.length_replicate, List.length_take]; omega⟩

/-- The entry that 96 bytes of memory hold. -/
def ofBytes (bs : List Byte) : Hamsterdesc where
  uid := intField 32 4 0 bs
  padding := intField 32 4 4 bs
  admissionTime := ⟨intField 64 8 8 bs, intField 64 8 16 bs⟩
  owner := charField 24 bs
  name := charField 56 bs
  price := intField 16 2 88 bs
  treatsLeft := intField 16 2 90 bs
  tailPadding := intField 32 4 92 bs

/-- The C string at `h.owner`. Without a zero in the field it runs on. -/
def ownerStr (h : Hamsterdesc) : CString := cstr (h.toBytes.drop 24)

/-- The C string at `h.name`. -/
def nameStr (h : Hamsterdesc) : CString := cstr (h.toBytes.drop 56)

@[simp] theorem length_owner (h : Hamsterdesc) : h.owner.val.length = 32 := h.owner.2

@[simp] theorem length_name (h : Hamsterdesc) : h.name.val.length = 32 := h.name.2

@[simp] theorem length_toBytes (h : Hamsterdesc) : h.toBytes.length = 96 := by
  simp [toBytes]

theorem drop_owner (h : Hamsterdesc) :
    h.toBytes.drop 24 = h.owner.val ++ h.toBytes.drop 56 := by
  simp [toBytes, List.drop_append, List.drop_eq_nil_of_le]

theorem drop_name (h : Hamsterdesc) :
    h.toBytes.drop 56 = h.name.val ++ h.toBytes.drop 88 := by
  simp [toBytes, List.drop_append, List.drop_eq_nil_of_le]

theorem charField_of_take {f : NameField} {off : Nat} {bs : List Byte}
    (h : (bs.drop off).take 32 = f.val) : charField off bs = f := by
  apply Subtype.ext
  have hf : f.val.length = 32 := f.2
  simp only [charField, h, hf]
  simp

theorem intField_of_take {n width off : Nat} (hw : 2 ^ n = 256 ^ width) {x : BitVec n}
    {bs : List Byte} (h : (bs.drop off).take width = leBytes width x.toNat) :
    intField n width off bs = x := by
  rw [intField, h, ofNat_leNat_leBytes hw]

theorem ofBytes_toBytes (h : Hamsterdesc) : ofBytes h.toBytes = h := by
  have huid : intField 32 4 0 h.toBytes = h.uid :=
    intField_of_take (by norm_num) (by simp [toBytes])
  have hpad : intField 32 4 4 h.toBytes = h.padding :=
    intField_of_take (by norm_num) (by simp [toBytes])
  have hsec : intField 64 8 8 h.toBytes = h.admissionTime.tvSec :=
    intField_of_take (by norm_num) (by simp [toBytes, List.drop_append, List.drop_eq_nil_of_le])
  have husec : intField 64 8 16 h.toBytes = h.admissionTime.tvUsec :=
    intField_of_take (by norm_num) (by simp [toBytes, List.drop_append, List.drop_eq_nil_of_le])
  have howner : charField 24 h.toBytes = h.owner :=
    charField_of_take (by simp [drop_owner])
  have hname : charField 56 h.toBytes = h.name :=
    charField_of_take (by simp [drop_name])
  have hprice : intField 16 2 88 h.toBytes = h.price :=
    intField_of_take (by norm_num) (by simp [toBytes, List.drop_append, List.drop_eq_nil_of_le])
  have htreats : intField 16 2 90 h.toBytes = h.treatsLeft :=
    intField_of_take (by norm_num) (by simp [toBytes, List.drop_append, List.drop_eq_nil_of_le])
  have htail : intField 32 4 92 h.toBytes = h.tailPadding :=
    intField_of_take (by norm_num) (by simp [toBytes, List.drop_append, List.drop_eq_nil_of_le])
  simp only [ofBytes, huid, hpad, hsec, husec, howner, hname, hprice, htreats, htail]

theorem leBytes_intField {n width off : Nat} (hw : 2 ^ n = 256 ^ width) {bs : List Byte}
    (h : off + width ≤ bs.length) :
    leBytes width (intField n width off bs).toNat = (bs.drop off).take width :=
  leBytes_ofNat_leNat hw _ (by rw [List.length_take, List.length_drop]; omega)

theorem val_charField {off : Nat} {bs : List Byte} (h : off + 32 ≤ bs.length) :
    (charField off bs).val = (bs.drop off).take 32 := by
  have hl : ((bs.drop off).take 32).length = 32 := by
    rw [List.length_take, List.length_drop]; omega
  simp only [charField, hl]
  simp

theorem take_append_drop_at (bs : List Byte) (off width : Nat) :
    (bs.drop off).take width ++ bs.drop (off + width) = bs.drop off := by
  rw [← List.drop_drop, List.take_append_drop]

theorem toBytes_ofBytes {bs : List Byte} (h : bs.length = 96) :
    (ofBytes bs).toBytes = bs := by
  have hend : (bs.drop 92).take 4 = bs.drop 92 :=
    List.take_of_length_le (by rw [List.length_drop]; omega)
  simp only [toBytes, ofBytes]
  rw [leBytes_intField (by norm_num) (by omega), leBytes_intField (by norm_num) (by omega),
    leBytes_intField (by norm_num) (by omega), leBytes_intField (by norm_num) (by omega),
    val_charField (by omega), val_charField (by omega),
    leBytes_intField (by norm_num) (by omega), leBytes_intField (by norm_num) (by omega),
    leBytes_intField (by norm_num) (by omega), hend,
    take_append_drop_at bs 90 2, take_append_drop_at bs 88 2, take_append_drop_at bs 56 32,
    take_append_drop_at bs 24 32, take_append_drop_at bs 16 8, take_append_drop_at bs 8 8,
    take_append_drop_at bs 4 4, take_append_drop_at bs 0 4, List.drop_zero]

/-- A zero within `h.owner` keeps the string inside the field. -/
theorem ownerStr_of_nul {h : Hamsterdesc} (hz : (0 : Byte) ∈ h.owner.val) :
    h.ownerStr = cstr h.owner.val := by
  rw [ownerStr, drop_owner, cstr_append hz]

theorem nameStr_of_nul {h : Hamsterdesc} (hz : (0 : Byte) ∈ h.name.val) :
    h.nameStr = cstr h.name.val := by
  rw [nameStr, drop_name, cstr_append hz]

end Hamsterdesc

/-! ## A file's entries -/

/-- The complete entries of a file. -/
def entries (content : List Byte) : List Hamsterdesc :=
  (chunks sizeofHamsterdesc content).map Hamsterdesc.ofBytes

/-- The bytes behind the last complete entry: empty unless the file is damaged. -/
def damage (content : List Byte) : List Byte := rest sizeofHamsterdesc content

def image (hs : List Hamsterdesc) : List Byte := hs.flatMap Hamsterdesc.toBytes

theorem image_eq_flatten (hs : List Hamsterdesc) :
    image hs = (hs.map Hamsterdesc.toBytes).flatten := List.flatMap_def ..

@[simp] theorem image_nil : image [] = [] := rfl

@[simp] theorem image_cons (h : Hamsterdesc) (hs : List Hamsterdesc) :
    image (h :: hs) = h.toBytes ++ image hs := rfl

@[simp] theorem image_append (hs hs' : List Hamsterdesc) :
    image (hs ++ hs') = image hs ++ image hs' := List.flatMap_append

theorem length_of_mem_map_toBytes {hs : List Hamsterdesc} :
    ∀ c ∈ hs.map Hamsterdesc.toBytes, c.length = 96 := by
  intro c hc
  obtain ⟨h, _, rfl⟩ := List.mem_map.mp hc
  exact h.length_toBytes

@[simp] theorem length_image (hs : List Hamsterdesc) :
    (image hs).length = 96 * hs.length := by
  rw [image_eq_flatten, length_flatten length_of_mem_map_toBytes, List.length_map]

theorem entries_image_append {hs : List Hamsterdesc} {tail : List Byte}
    (ht : tail.length < 96) : entries (image hs ++ tail) = hs := by
  rw [entries, image_eq_flatten, chunks_flatten (by decide) length_of_mem_map_toBytes ht,
    List.map_map]
  conv_rhs => rw [← List.map_id hs]
  exact List.map_congr_left fun h _ => Hamsterdesc.ofBytes_toBytes h

theorem damage_image_append {hs : List Hamsterdesc} {tail : List Byte}
    (ht : tail.length < 96) : damage (image hs ++ tail) = tail := by
  rw [damage, image_eq_flatten, rest_flatten (by decide) length_of_mem_map_toBytes ht]

@[simp] theorem entries_image (hs : List Hamsterdesc) : entries (image hs) = hs := by
  have h : entries (image hs ++ []) = hs := entries_image_append (by decide)
  rwa [List.append_nil] at h

@[simp] theorem damage_image (hs : List Hamsterdesc) : damage (image hs) = [] := by
  have h : damage (image hs ++ []) = [] := damage_image_append (by decide)
  rwa [List.append_nil] at h

/-- Every file is the image of its entries followed by its damage. -/
theorem image_entries (content : List Byte) :
    image (entries content) ++ damage content = content := by
  have hb : image (entries content) = (chunks sizeofHamsterdesc content).flatten := by
    rw [image_eq_flatten, entries, List.map_map]
    congr 1
    conv_rhs => rw [← List.map_id (chunks sizeofHamsterdesc content)]
    exact List.map_congr_left fun c hc =>
      Hamsterdesc.toBytes_ofBytes (length_of_mem_chunks (by decide) hc)
  rw [hb, damage, flatten_chunks (by decide)]

theorem length_damage_lt (content : List Byte) :
    (damage content).length < 96 := length_rest_lt (by decide) content

theorem damage_eq_nil_iff (content : List Byte) :
    damage content = [] ↔ 96 ∣ content.length :=
  rest_eq_nil_iff (by decide) content

/-- The entries of the database, none if it does not exist. -/
def storeEntries (w : World) : List Hamsterdesc := ((w.content .datafile).map entries).getD []

end Hamster.Store.Entry
