import Inferno.Common.Bytes
import Mathlib.Data.BitVec

/-!
# The multitouch controller on the serial bus

The guest clocks one byte after the other into the controller and gets one back for each. What it
clocks is a stream of frames. The first byte of a frame chooses between two framings: `0xEF` begins
a packet of the firmware, anything else a command of the boot protocol, whose length depends on its
first byte and, for `HBPP_PACKET_DATA`, on a length in its header. The receive buffer collects a
frame; its capacity is the length of the frame as far as that is known, so that the frame is
complete when the buffer is full. What the guest gets back is in the transmit buffer, and what is to
be sent later is in a buffer of words of the boot protocol and in a queue of packets of the
firmware, to which a touch adds one.

`none` is an assertion that fails. It is also what becomes of a buffer that is to hold `2^32` bytes
or more: its capacity has 32 bits, and `g_realloc` is then asked for less memory than the buffer
already fills, and the next store is outside of it.
-/

namespace Inferno.MtSpi

open Common
open BitVec (ofInt ofNat)

/-! ## Checksums -/

def crc16Table : List (BitVec 16) :=
  [0x0000, 0xC0C1, 0xC181, 0x0140, 0xC301, 0x03C0, 0x0280, 0xC241, 0xC601, 0x06C0, 0x0780, 0xC741,
    0x0500, 0xC5C1, 0xC481, 0x0440, 0xCC01, 0x0CC0, 0x0D80, 0xCD41, 0x0F00, 0xCFC1, 0xCE81, 0x0E40,
    0x0A00, 0xCAC1, 0xCB81, 0x0B40, 0xC901, 0x09C0, 0x0880, 0xC841, 0xD801, 0x18C0, 0x1980, 0xD941,
    0x1B00, 0xDBC1, 0xDA81, 0x1A40, 0x1E00, 0xDEC1, 0xDF81, 0x1F40, 0xDD01, 0x1DC0, 0x1C80, 0xDC41,
    0x1400, 0xD4C1, 0xD581, 0x1540, 0xD701, 0x17C0, 0x1680, 0xD641, 0xD201, 0x12C0, 0x1380, 0xD341,
    0x1100, 0xD1C1, 0xD081, 0x1040, 0xF001, 0x30C0, 0x3180, 0xF141, 0x3300, 0xF3C1, 0xF281, 0x3240,
    0x3600, 0xF6C1, 0xF781, 0x3740, 0xF501, 0x35C0, 0x3480, 0xF441, 0x3C00, 0xFCC1, 0xFD81, 0x3D40,
    0xFF01, 0x3FC0, 0x3E80, 0xFE41, 0xFA01, 0x3AC0, 0x3B80, 0xFB41, 0x3900, 0xF9C1, 0xF881, 0x3840,
    0x2800, 0xE8C1, 0xE981, 0x2940, 0xEB01, 0x2BC0, 0x2A80, 0xEA41, 0xEE01, 0x2EC0, 0x2F80, 0xEF41,
    0x2D00, 0xEDC1, 0xEC81, 0x2C40, 0xE401, 0x24C0, 0x2580, 0xE541, 0x2700, 0xE7C1, 0xE681, 0x2640,
    0x2200, 0xE2C1, 0xE381, 0x2340, 0xE101, 0x21C0, 0x2080, 0xE041, 0xA001, 0x60C0, 0x6180, 0xA141,
    0x6300, 0xA3C1, 0xA281, 0x6240, 0x6600, 0xA6C1, 0xA781, 0x6740, 0xA501, 0x65C0, 0x6480, 0xA441,
    0x6C00, 0xACC1, 0xAD81, 0x6D40, 0xAF01, 0x6FC0, 0x6E80, 0xAE41, 0xAA01, 0x6AC0, 0x6B80, 0xAB41,
    0x6900, 0xA9C1, 0xA881, 0x6840, 0x7800, 0xB8C1, 0xB981, 0x7940, 0xBB01, 0x7BC0, 0x7A80, 0xBA41,
    0xBE01, 0x7EC0, 0x7F80, 0xBF41, 0x7D00, 0xBDC1, 0xBC81, 0x7C40, 0xB401, 0x74C0, 0x7580, 0xB541,
    0x7700, 0xB7C1, 0xB681, 0x7640, 0x7200, 0xB2C1, 0xB381, 0x7340, 0xB101, 0x71C0, 0x7080, 0xB041,
    0x5000, 0x90C1, 0x9181, 0x5140, 0x9301, 0x53C0, 0x5280, 0x9241, 0x9601, 0x56C0, 0x5780, 0x9741,
    0x5500, 0x95C1, 0x9481, 0x5440, 0x9C01, 0x5CC0, 0x5D80, 0x9D41, 0x5F00, 0x9FC1, 0x9E81, 0x5E40,
    0x5A00, 0x9AC1, 0x9B81, 0x5B40, 0x9901, 0x59C0, 0x5880, 0x9841, 0x8801, 0x48C0, 0x4980, 0x8941,
    0x4B00, 0x8BC1, 0x8A81, 0x4A40, 0x4E00, 0x8EC1, 0x8F81, 0x4F40, 0x8D01, 0x4DC0, 0x4C80, 0x8C41,
    0x4400, 0x84C1, 0x8581, 0x4540, 0x8701, 0x47C0, 0x4680, 0x8641, 0x8201, 0x42C0, 0x4380, 0x8341,
    0x4100, 0x81C1, 0x8081, 0x4040]

variable (crc : BitVec 16)

def crc16Byte (data : UInt8) : BitVec 16 :=
  (crc >>> 8) ^^^ crc16Table.getD ((crc ^^^ data.toBitVec.setWidth 16) &&& 0xFF).toNat 0

def crc16 (buffer : List UInt8) : BitVec 16 := buffer.foldl crc16Byte crc

/-! ## Buffers -/

/-- `AppleMTSPIBuffer`. Its memory is there exactly when the capacity is not zero, and `data` is
what was stored in it. -/
structure AppleMTSPIBuffer where
  data : List UInt8
  capacity : ℕ
  read_pos : ℕ

/-- What is stored at once. -/
inductive Datum
  | byte (val : UInt8)
  | word (val : BitVec 16)
  | dword (val : BitVec 32)

/-- `sizeof`. -/
def Datum.size : Datum → ℕ
  | .byte _ => 1
  | .word _ => 2
  | .dword _ => 4

/-- The bytes, as `stw_le_p` and `stl_le_p` store them. -/
def Datum.bytes : Datum → List UInt8
  | .byte val => [val]
  | .word val => leBytes 2 val.toNat
  | .dword val => leBytes 4 val.toNat

namespace AppleMTSPIBuffer

variable (buf : AppleMTSPIBuffer)

/-- The field `len`. -/
def len : ℕ := buf.data.length

/-- What `apple_mt_spi_buf_free` leaves. -/
def free : AppleMTSPIBuffer := ⟨[], 0, 0⟩

/-- `apple_mt_spi_buf_ensure_capacity`. -/
def ensureCapacity (bytes : ℕ) : Option AppleMTSPIBuffer :=
  if buf.capacity < buf.len + bytes then
    let capacity := (buf.len + bytes) % 2 ^ 32
    if capacity < buf.len then none else some { buf with capacity := capacity }
  else some buf

/-- `apple_mt_spi_buf_set_capacity`. -/
def setCapacity (capacity : ℕ) : Option AppleMTSPIBuffer :=
  if capacity < buf.capacity then none else some { buf with capacity := capacity }

/-- `apple_mt_spi_buf_set_len`. -/
def setLen (val : UInt8) (len : ℕ) : Option AppleMTSPIBuffer :=
  if len < buf.len then none
  else do
    let buf' ← buf.ensureCapacity (len - buf.len)
    pure { buf' with data := buf.data ++ List.replicate (len - buf.len) val }

/-- `apple_mt_spi_buf_is_empty`. -/
def isEmpty : Bool := buf.len == 0

/-- `apple_mt_spi_buf_get_pos`. -/
def getPos : Option ℕ :=
  if buf.isEmpty then none else some (buf.len - 1)

/-- `apple_mt_spi_buf_is_full`. -/
def isFull : Bool := !buf.isEmpty && buf.len == buf.capacity

/-- `apple_mt_spi_buf_pos_at_start`. -/
def posAtStart : Option Bool := buf.getPos.map (· == 0)

/-- `apple_mt_spi_buf_read_pos_at_end`. -/
def readPosAtEnd : Bool := buf.read_pos + 1 == buf.len

/-- `apple_mt_spi_buf_push_byte`, `apple_mt_spi_buf_push_word` and `apple_mt_spi_buf_push_dword`. -/
def push (val : Datum) : Option AppleMTSPIBuffer := do
  let buf' ← buf.ensureCapacity val.size
  pure { buf' with data := buf.data ++ val.bytes }

/-- One after the other. -/
def pushes (vals : List Datum) : Option AppleMTSPIBuffer :=
  vals.foldlM push buf

/-- `apple_mt_spi_buf_push_crc16`. -/
def pushCrc16 : Option AppleMTSPIBuffer :=
  if buf.isEmpty then none else buf.push (.word (crc16 0 buf.data))

/-- `apple_mt_spi_buf_append`; the other buffer is freed. -/
def append (buf other_buf : AppleMTSPIBuffer) : Option AppleMTSPIBuffer :=
  if other_buf.isEmpty then some buf
  else do
    let buf' ← buf.ensureCapacity other_buf.len
    pure { buf' with data := buf.data ++ other_buf.data }

/-- `apple_mt_spi_buf_pop`. -/
def pop : Option (UInt8 × AppleMTSPIBuffer) :=
  if buf.isEmpty then some (0, buf)
  else if buf.capacity = 0 then none
  else do
    let ret ← buf.data[buf.read_pos]?
    pure (ret, if buf.readPosAtEnd || buf.isEmpty then free
      else { buf with read_pos := buf.read_pos + 1 })

/-- `apple_mt_spi_buf_read_byte`. -/
def readByte (off : ℕ) : Option UInt8 :=
  if buf.capacity = 0 then none else buf.data[off]?

/-- `apple_mt_spi_buf_read_word`. -/
def readWord (off : ℕ) : Option (BitVec 16) :=
  if buf.capacity = 0 then none
  else if off + 2 < buf.len then
    some (ofNat 16 (256 * (buf.data.getD off 0).toNat + (buf.data.getD (off + 1) 0).toNat))
  else none

end AppleMTSPIBuffer

open AppleMTSPIBuffer

/-! ## State -/

structure AppleMTSPILLPacket where
  buf : AppleMTSPIBuffer
  type : UInt8

structure AppleMTSPITouchUpdate where
  /-- When it was scheduled. -/
  ts : BitVec 64
  path_stage : UInt8

/-- `AppleMTSPIState`, with the level of its line and the touch updates that are scheduled. -/
structure AppleMTSPIState where
  /-- The line is high, which is inactive. -/
  irq : Bool
  /-- What the guest is to get. -/
  tx : AppleMTSPIBuffer
  /-- What the guest has sent of a frame. -/
  rx : AppleMTSPIBuffer
  pending_hbpp : AppleMTSPIBuffer
  /-- The packets that are pending of the firmware. -/
  pending_fw : List AppleMTSPILLPacket
  frame : UInt8
  x : BitVec 16
  y : BitVec 16
  prev_x : BitVec 16
  prev_y : BitVec 16
  /-- When the last update was scheduled. -/
  prev_ts : BitVec 64
  btn_state : BitVec 32
  prev_btn_state : BitVec 32
  display_height : BitVec 32
  /-- The bottom halves that are scheduled. -/
  updates : List AppleMTSPITouchUpdate

/-! ## The boot protocol -/

def HBPP_PACKET_RESET : UInt8 := 0x00
def HBPP_PACKET_NOP : UInt8 := 0x18
def HBPP_PACKET_INT_ACK : UInt8 := 0x1A
def HBPP_PACKET_MEM_READ : UInt8 := 0x1C
def HBPP_PACKET_MEM_RMW : UInt8 := 0x1E
def HBPP_PACKET_REQ_CAL : UInt8 := 0x1F
def HBPP_PACKET_DATA : UInt8 := 0x30
def HBPP_PACKET_REQ_BOOT : BitVec 16 := 0x011F
def HBPP_PACKET_ACK_RD_REQ : BitVec 16 := 0x394C
def HBPP_PACKET_ACK_NOP : BitVec 16 := 0x7948
def HBPP_PACKET_CAL_DONE : BitVec 16 := 0x6949
def HBPP_PACKET_ACK_DATA : BitVec 16 := 0xC14B
def HBPP_PACKET_ACK_WR_REQ : BitVec 16 := 0xD14A

variable (s : AppleMTSPIState)

/-- `apple_mt_spi_push_pending_hbpp_word` and `apple_mt_spi_push_pending_hbpp_dword`. -/
def pushPendingHbpp (val : Datum) : Option AppleMTSPIState := do
  let pending_hbpp ← s.pending_hbpp.push val
  pure { s with pending_hbpp := pending_hbpp, irq := false }

/-- `apple_mt_spi_hbpp_packet_hdr_len`. -/
def hbppPacketHdrLen (val : UInt8) : ℕ :=
  if val = HBPP_PACKET_RESET then 0x4
  else if val = HBPP_PACKET_NOP then 0x2
  else if val = HBPP_PACKET_INT_ACK then 0x2
  else if val = HBPP_PACKET_MEM_READ then 0x8
  else if val = HBPP_PACKET_MEM_RMW then 0x10
  else if val = HBPP_PACKET_REQ_CAL then 0x2
  else if val = HBPP_PACKET_DATA then 0xA
  else 0x2

/-- `apple_mt_spi_handle_hbpp_data`. -/
def handleHbppData : Option AppleMTSPIState :=
  if s.rx.isFull then do
    let word ← s.rx.readWord 2
    let payload_len := word.toNat * 4 % 2 ^ 16
    let new_rx_capacity := (hbppPacketHdrLen HBPP_PACKET_DATA + payload_len + 4) % 2 ^ 16
    if s.rx.capacity = new_rx_capacity then pushPendingHbpp s (.word HBPP_PACKET_ACK_DATA)
    else do
      let rx ← s.rx.setCapacity new_rx_capacity
      pure { s with rx := rx }
  else some s

/-- `apple_mt_spi_handle_hbpp_mem_rmw`. -/
def handleHbppMemRmw : Option AppleMTSPIState :=
  if s.rx.isFull then pushPendingHbpp s (.word HBPP_PACKET_ACK_WR_REQ) else some s

variable (packet_type : UInt8)

/-- What `apple_mt_spi_handle_hbpp` does for the type of the command; `start` says that this is its
first byte. -/
def handleHbppPacket (start : Bool) : Option AppleMTSPIState :=
  if packet_type = HBPP_PACKET_RESET then
    if s.rx.isFull then pushPendingHbpp s (.word HBPP_PACKET_REQ_BOOT) else some s
  else if packet_type = HBPP_PACKET_NOP then
    if start && s.tx.isEmpty then do
      let tx ← s.tx.push (.word HBPP_PACKET_ACK_NOP)
      pure { s with tx := tx }
    else some s
  else if packet_type = HBPP_PACKET_INT_ACK then
    if start then do
      let tx ← s.tx.append s.pending_hbpp
      pure { s with tx := tx, pending_hbpp := free }
    else some s
  else if packet_type = HBPP_PACKET_MEM_READ then
    if start then do
      let pending_hbpp ← s.pending_hbpp.ensureCapacity (2 + 4 + 2)
      let s := { s with pending_hbpp := pending_hbpp }
      let s ← pushPendingHbpp s (.word HBPP_PACKET_ACK_RD_REQ)
      let s ← pushPendingHbpp s (.dword 0)
      pushPendingHbpp s (.word 0)
    else some s
  else if packet_type = HBPP_PACKET_MEM_RMW then handleHbppMemRmw s
  else if packet_type = HBPP_PACKET_REQ_CAL then
    if start then pushPendingHbpp s (.word HBPP_PACKET_CAL_DONE) else some s
  else if packet_type = HBPP_PACKET_DATA then handleHbppData s
  else some s

/-- The first byte of a command gives its length. -/
def beginHbpp (rx : AppleMTSPIBuffer) (packet_type : UInt8) (start : Bool) :
    Option AppleMTSPIBuffer :=
  if start then rx.setCapacity (hbppPacketHdrLen packet_type) else some rx

/-- `apple_mt_spi_handle_hbpp`. -/
def handleHbpp : Option AppleMTSPIState := do
  let packet_type ← s.rx.readByte 0
  let start ← s.rx.posAtStart
  let rx ← beginHbpp s.rx packet_type start
  handleHbppPacket { s with rx := rx } packet_type start

/-! ## Packets of the firmware -/

def LL_PACKET_PREAMBLE : BitVec 32 := 0xDEADBEEF
def LL_PACKET_LEN : ℕ := 0x204
def LL_PACKET_LOSSLESS_OUTPUT : UInt8 := 0x10
def LL_PACKET_CONTROL : UInt8 := 0x40
def LL_PACKET_NO_DATA : UInt8 := 0x80
def LL_PACKET_ERROR : BitVec 32 := 0xB3655245
def LL_PACKET_ACK : BitVec 32 := 0xD56827AC
def LL_PACKET_NAK : BitVec 32 := 0xE4FB139
def LL_PACKET_BUSY : BitVec 32 := 0xF8E5179C
def HID_CONTROL_PACKET_GET_FEATURE_REPORT : UInt8 := 0x32
def HID_CONTROL_PACKET_SET_OUTPUT_REPORT : UInt8 := 0x51
def HID_CONTROL_PACKET_SET_FEATURE_REPORT : UInt8 := 0x52
def HID_TRANSFER_PACKET_OUTPUT : UInt8 := 0x20
def HID_PACKET_STATUS_SUCCESS : UInt8 := 0
def HID_REPORT_BINARY_PATH_OR_IMAGE : UInt8 := 0x44
def HID_REPORT_SENSOR_REGION_PARAM : UInt8 := 0xA1
def HID_REPORT_SENSOR_REGION_DESC : UInt8 := 0xD0
def HID_REPORT_FAMILY_ID : UInt8 := 0xD1
def HID_REPORT_BASIC_DEVICE_INFO : UInt8 := 0xD3
def HID_REPORT_SENSOR_SURFACE_DESC : UInt8 := 0xD9
def MT_FAMILY_ID : UInt8 := 0xC3
def MT_LITTLE_ENDIAN : UInt8 := 1
def MT_ROWS : UInt8 := 31
def MT_COLUMNS : UInt8 := 15
def MT_BCD_VER : BitVec 16 := 0x9202
def MT_SENSOR_SURFACE_WIDTH : ℕ := 6458
def MT_SENSOR_SURFACE_HEIGHT : ℕ := 13977

variable (val : BitVec 32)

/-- The low byte of a word. -/
def lowByte : UInt8 := ⟨val.setWidth 8⟩

variable (buf : AppleMTSPIBuffer)

/-- `apple_mt_spi_push_preamble`. -/
def pushPreamble : Option AppleMTSPIBuffer :=
  buf.push (.dword LL_PACKET_PREAMBLE)

/-- `apple_mt_spi_push_ll_hdr`. -/
def pushLlHdr (type interface : UInt8) (payload_off payload_remaining payload_length : BitVec 16)
    (buf : AppleMTSPIBuffer) : Option AppleMTSPIBuffer := do
  let buf ← buf.ensureCapacity 8
  buf.pushes [.byte type, .byte interface, .word payload_off, .word payload_remaining,
    .word payload_length]

/-- `apple_mt_spi_pad_ll_packet`. -/
def padLlPacket : Option AppleMTSPIBuffer :=
  buf.setLen 0 (LL_PACKET_LEN - 4 - 2)

/-- `apple_mt_spi_push_no_data`. -/
def pushNoData : Option AppleMTSPIBuffer := do
  let buf ← pushLlHdr LL_PACKET_NO_DATA 0 0 0 0 buf
  let buf ← padLlPacket buf
  buf.pushCrc16

/-- `apple_mt_spi_ll_read_payload_byte`. -/
def llReadPayloadByte (off : ℕ) : Option UInt8 :=
  if buf.isEmpty then none else buf.data[4 + 8 + off]?

variable (type report_id packet_status frame_number : UInt8)

/-- `apple_mt_spi_push_hid_hdr`. -/
def pushHidHdr (length_requested payload_length : BitVec 16) (buf : AppleMTSPIBuffer) :
    Option AppleMTSPIBuffer := do
  let buf ← buf.ensureCapacity 8
  buf.pushes [.byte type, .byte report_id, .byte packet_status, .byte frame_number,
    .word length_requested, .word payload_length]

variable (payload_length : BitVec 16)

/-- `apple_mt_spi_push_report_hdr`. -/
def pushReportHdr (buf : AppleMTSPIBuffer) : Option AppleMTSPIBuffer := do
  let buf ← buf.ensureCapacity 9
  let buf ← pushHidHdr type report_id packet_status frame_number 0 (payload_length + 1) buf
  buf.push (.byte report_id)

/-- A report with its data; with one byte it is `apple_mt_spi_push_report_byte`. -/
def pushReport (vals : List Datum) (buf : AppleMTSPIBuffer) : Option AppleMTSPIBuffer := do
  let buf ← pushReportHdr type report_id packet_status frame_number payload_length buf
  buf.pushes vals

/-- A report in a new buffer with its checksum. -/
def reportPacket (capacity : ℕ) (type report_id packet_status frame_number : UInt8)
    (payload_length : BitVec 16) (vals : List Datum) : Option AppleMTSPIBuffer := do
  let buf ← free.ensureCapacity capacity
  let buf ← pushReport type report_id packet_status frame_number payload_length vals buf
  buf.pushCrc16

/-- What a feature report holds: the capacity that is ensured, the length of the payload and the
payload. -/
def featureReport (report_id : UInt8) : ℕ × BitVec 16 × List Datum :=
  if report_id = HID_REPORT_FAMILY_ID then (9 + 1 + 2, 1, [.byte MT_FAMILY_ID])
  else if report_id = HID_REPORT_BASIC_DEVICE_INFO then
    (9 + 5 + 2, 5, [.byte MT_LITTLE_ENDIAN, .byte MT_ROWS, .byte MT_COLUMNS, .word MT_BCD_VER])
  else if report_id = HID_REPORT_SENSOR_SURFACE_DESC then
    (9 + 16 + 2, 16, [.dword (ofNat 32 MT_SENSOR_SURFACE_WIDTH),
        .dword (ofNat 32 MT_SENSOR_SURFACE_HEIGHT), .word 0, .word 0,
        .word (ofNat 16 MT_SENSOR_SURFACE_WIDTH),
        .word (ofNat 16 MT_SENSOR_SURFACE_HEIGHT)])
  else if report_id = HID_REPORT_SENSOR_REGION_PARAM then
    (9 + 6 + 2, 6, [.word 0x0, .word 0x7, .word 0x200])
  else if report_id = HID_REPORT_SENSOR_REGION_DESC then
    (9 + 22 + 2, 22,
      -- Three regions of seven bytes each: the touch area, the common mode and one unknown.
      [.byte 3, .byte 1, .byte 0, .byte 30, .byte 1, .byte 0, .byte 14, .byte 0, .byte 8, .byte 0,
        .byte 30, .byte 1, .byte 14, .byte 1, .byte 0, .byte 11, .byte 30, .byte 1, .byte 1,
        .byte 0, .byte 15, .byte 0])
  else (0, 1, [.byte 0])

/-- `apple_mt_spi_handle_get_feature`. For an unknown report nothing is ensured. -/
def handleGetFeature : Option AppleMTSPIState := do
  let report_id ← llReadPayloadByte s.rx 1
  let frame_number ← llReadPayloadByte s.rx 3
  let (capacity, payload_length, vals) := featureReport report_id
  let buf ← reportPacket capacity HID_CONTROL_PACKET_SET_OUTPUT_REPORT report_id
    HID_PACKET_STATUS_SUCCESS frame_number payload_length vals
  pure { s with pending_fw := s.pending_fw ++ [⟨buf, LL_PACKET_CONTROL⟩] }

/-- `apple_mt_spi_handle_set_feature`. -/
def handleSetFeature : Option AppleMTSPIState := do
  let report_id ← llReadPayloadByte s.rx 1
  let frame_number ← llReadPayloadByte s.rx 3
  let buf ← pushHidHdr HID_CONTROL_PACKET_SET_OUTPUT_REPORT report_id HID_PACKET_STATUS_SUCCESS
    frame_number 0 0 free
  let buf ← buf.pushCrc16
  pure { s with pending_fw := s.pending_fw ++ [⟨buf, LL_PACKET_CONTROL⟩] }

/-- `apple_mt_spi_handle_control`. -/
def handleControl : Option AppleMTSPIState := do
  let type ← llReadPayloadByte s.rx 0
  if type = HID_CONTROL_PACKET_GET_FEATURE_REPORT then handleGetFeature s
  else if type = HID_CONTROL_PACKET_SET_FEATURE_REPORT then handleSetFeature s
  else some s

/-- The packet that `apple_mt_spi_handle_fw_packet` answers with, and the packets that stay. -/
def fwAnswer : List AppleMTSPILLPacket → Option (AppleMTSPIBuffer × List AppleMTSPILLPacket)
  | [] => do
    let buf ← pushNoData free
    pure (buf, [])
  | packet :: pending_fw => do
    let buf ← pushLlHdr packet.type 0 0 0 (ofNat 16 packet.buf.len) free
    let buf ← buf.append packet.buf
    let buf ← padLlPacket buf
    let buf ← buf.pushCrc16
    pure (buf, pending_fw)

/-- The first part of `apple_mt_spi_handle_fw_packet`: when the type of the packet comes, it is
answered. -/
def answerFwPacket (pos : ℕ) : Option AppleMTSPIState :=
  if pos = 4 then do
    let rx ← s.rx.setCapacity LL_PACKET_LEN
    let (buf, pending_fw) ← fwAnswer s.pending_fw
    let tx ← s.tx.append buf
    pure { s with rx := rx, tx := tx, pending_fw := pending_fw }
  else some s

/-- The second part of `apple_mt_spi_handle_fw_packet`: when the packet is complete, it is
performed. -/
def performFwPacket : Option AppleMTSPIState :=
  if s.rx.isFull then do
    let packet_type ← s.rx.readByte 4
    if packet_type = LL_PACKET_CONTROL then handleControl s else some s
  else some s

/-- `apple_mt_spi_handle_fw_packet`. -/
def handleFwPacket : Option AppleMTSPIState := do
  let pos ← s.rx.getPos
  let s ← answerFwPacket s pos
  performFwPacket s

/-- The byte begins a status. -/
def IsStatus : Prop :=
  packet_type = lowByte LL_PACKET_ERROR ∨ packet_type = lowByte LL_PACKET_ACK ∨
    packet_type = lowByte LL_PACKET_NAK ∨ packet_type = lowByte LL_PACKET_BUSY

instance : DecidablePred IsStatus := fun b =>
  inferInstanceAs (Decidable (b = _ ∨ b = _ ∨ b = _ ∨ b = _))

/-- The first byte of a packet is answered by the preamble. -/
def beginFw (start : Bool) : Option AppleMTSPIState :=
  if start then do
    let rx ← s.rx.setCapacity (4 * 2)
    let tx ← pushPreamble s.tx
    pure { s with rx := rx, tx := tx }
  else some s

/-- From its fifth byte on a packet is a status or something else. -/
def continueFw : Option AppleMTSPIState := do
  let pos ← s.rx.getPos
  if pos < 4 then some s
  else
    let packet_type ← s.rx.readByte 4
    if IsStatus packet_type then
      if pos = 4 then do
        let tx ← s.tx.push (.dword LL_PACKET_ACK)
        pure { s with tx := tx }
      else some s
    else handleFwPacket s

/-- `apple_mt_spi_handle_fw`. -/
def handleFw : Option AppleMTSPIState := do
  let start ← s.rx.posAtStart
  let s ← beginFw s start
  continueFw s

/-! ## Transfers -/

/-- A byte of a frame is handled. -/
def handle : Option AppleMTSPIState := do
  let first ← s.rx.readByte 0
  if first = lowByte LL_PACKET_PREAMBLE then handleFw s else handleHbpp s

/-- The end of `apple_mt_spi_transfer`: a complete frame is freed, and the guest gets a byte. -/
def finish : Option (UInt8 × AppleMTSPIState) := do
  let rx := if s.rx.isFull then free else s.rx
  let (ret, tx) ← s.tx.pop
  pure (ret, { s with
    rx := rx, tx := tx, irq := s.pending_hbpp.isEmpty && s.pending_fw.isEmpty })

/-- `apple_mt_spi_transfer`: the byte that the guest gets, and the state. -/
def transfer : Option (UInt8 × AppleMTSPIState) := do
  let rx ← s.rx.push (.byte (lowByte val))
  let s ← handle { s with rx := rx }
  finish s

/-! ## Touches -/

def PATH_STAGE_MAKE_TOUCH : UInt8 := 3
def PATH_STAGE_TOUCHING : UInt8 := 4
def PATH_STAGE_BREAK_TOUCH : UInt8 := 5
def PATH_STAGE_OUT_OF_RANGE : UInt8 := 7

/-- `ABS(delta) / ts_delta * 1000` of two coordinates. -/
def velocity (pos prev : BitVec 16) (ts_delta : BitVec 64) : BitVec 16 :=
  ofNat 16 ((pos.toInt - prev.toInt).natAbs / ts_delta.toNat * 1000)

/-- What a path update holds: a header of 27 bytes and a path of 20. -/
def pathUpdate (ts ts_delta : BitVec 64) (path_stage : UInt8) : List Datum :=
  [.byte s.frame, .byte 28, .byte 0, .dword (ofNat 32 (ts.toNat / 1000000)), .byte 0,
    .byte 0, .byte 0, .byte 0, .word 0, .word 0, .byte 1, .byte 20, .word 0, .word 0, .word 0,
    .byte 0, .byte 0, .byte 0, .byte 0, .byte 1, .byte path_stage, .byte 1, .byte 1, .word s.x,
    .word s.y, .word (velocity s.x s.prev_x ts_delta), .word (velocity s.y s.prev_y ts_delta),
    .word 660, .word 580, .word 19317, .word 100]

/-- `apple_mt_spi_send_path_update`. -/
def sendPathUpdate (ts : BitVec 64) (path_stage : UInt8) : Option AppleMTSPIState := do
  let ts_delta := if ts - s.prev_ts < 1 then 1 else ts - s.prev_ts
  let buf ← reportPacket (9 + 27 + 20 + 2) HID_TRANSFER_PACKET_OUTPUT
    HID_REPORT_BINARY_PATH_OR_IMAGE HID_PACKET_STATUS_SUCCESS s.frame (27 + 20)
    (pathUpdate s ts ts_delta path_stage)
  pure { s with
    prev_ts := ts
    frame := if s.frame < 0xFF then s.frame + 1 else 0
    pending_fw := s.pending_fw ++ [⟨buf, LL_PACKET_LOSSLESS_OUTPUT⟩]
    irq := false }

/-- `apple_mt_spi_send_touch_update_bh` of one of the updates that are scheduled. -/
def sendTouchUpdateBh (k : ℕ) : Option AppleMTSPIState :=
  match s.updates[k]? with
  | none => some s
  | some update =>
    sendPathUpdate { s with updates := s.updates.eraseIdx k } update.ts update.path_stage

variable (now : BitVec 64)

/-- `apple_mt_spi_schedule_touch_update`, with `apple_mt_spi_new_touch_update`. -/
def scheduleTouchUpdate (path_stage : UInt8) (s : AppleMTSPIState) : AppleMTSPIState :=
  { s with updates := s.updates ++ [⟨now, path_stage⟩] }

section

variable (dx dy buttons_state : BitVec 32) (s : AppleMTSPIState)

/-- `apple_mt_spi_timer_tick`. -/
def timerTick : AppleMTSPIState :=
  if s.prev_x ≠ s.x ∨ s.prev_y ≠ s.y then scheduleTouchUpdate now PATH_STAGE_TOUCHING s else s

/-- `apple_mt_spi_end_timer_tick`. -/
def endTimerTick : AppleMTSPIState :=
  { scheduleTouchUpdate now PATH_STAGE_OUT_OF_RANGE s with prev_ts := 0, prev_x := 0, prev_y := 0 }

def inputScaleAxis (value min_in max_in min_out max_out : BitVec 32) : BitVec 32 :=
  let range_in := max_in.toInt - min_in.toInt
  let range_out := max_out.toInt - min_out.toInt
  if range_in < 1 then ofInt 32 (min_out.toInt + range_out.tdiv 2)
  else ofInt 32 (((value.toInt - min_in.toInt) * range_out).tdiv range_in + min_out.toInt)

def INPUT_EVENT_ABS_MIN : BitVec 32 := 0x0000
def INPUT_EVENT_ABS_MAX : BitVec 32 := 0x7FFF
def MOUSE_EVENT_LBUTTON : BitVec 32 := 0x01

/-- `apple_mt_spi_mouse_event`. -/
def mouseEvent : AppleMTSPIState :=
  let width := ofNat 32 MT_SENSOR_SURFACE_WIDTH
  let height := ofNat 32 MT_SENSOR_SURFACE_HEIGHT
  let x := inputScaleAxis dx INPUT_EVENT_ABS_MIN INPUT_EVENT_ABS_MAX 0 width
  let y := inputScaleAxis (INPUT_EVENT_ABS_MAX - dy) INPUT_EVENT_ABS_MIN INPUT_EVENT_ABS_MAX 0
    height
  let s := { s with
    prev_x := s.x
    prev_y := s.y
    x := x.setWidth 16
    -- The calibration of the vertical axis.
    y := y.setWidth 16 - (inputScaleAxis 16 0 s.display_height 0 height).setWidth 16
    prev_btn_state := s.btn_state
    btn_state := buttons_state }
  if s.prev_btn_state &&& MOUSE_EVENT_LBUTTON = 0 ∧ s.btn_state &&& MOUSE_EVENT_LBUTTON ≠ 0 then
    scheduleTouchUpdate now PATH_STAGE_MAKE_TOUCH s
  else if s.prev_btn_state &&& MOUSE_EVENT_LBUTTON ≠ 0 ∧
      s.btn_state &&& MOUSE_EVENT_LBUTTON = 0 then
    scheduleTouchUpdate now PATH_STAGE_BREAK_TOUCH s
  else s

end

/-! ## The controller -/

/-- `apple_mt_spi_reset_enter` and `apple_mt_spi_reset_hold`. -/
def reset : AppleMTSPIState :=
  { s with
    btn_state := 0, prev_btn_state := 0, prev_x := 0, prev_y := 0, x := 0, y := 0, prev_ts := 0
    frame := 0, tx := free, rx := free, pending_hbpp := free, pending_fw := [], irq := true }

/-- A new controller after its reset. -/
def init (display_height : BitVec 32) : AppleMTSPIState where
  irq := true
  tx := free
  rx := free
  pending_hbpp := free
  pending_fw := []
  frame := 0
  x := 0
  y := 0
  prev_x := 0
  prev_y := 0
  prev_ts := 0
  btn_state := 0
  prev_btn_state := 0
  display_height := display_height
  updates := []

/-- What can happen to the controller. The timers may fire at any time. -/
inductive Op
  | transfer (val : BitVec 32)
  /-- The user moves or clicks. -/
  | mouseEvent (now : BitVec 64) (dx dy buttons_state : BitVec 32)
  | timerTick (now : BitVec 64)
  | endTimerTick (now : BitVec 64)
  /-- A bottom half runs, in whatever order they do. -/
  | touchUpdate (k : ℕ)
  | reset

/-- One step of the controller; `none` when the emulator aborts. -/
def step : Op → Option AppleMTSPIState
  | .transfer val => (transfer s val).map (·.2)
  | .mouseEvent now dx dy buttons_state => some (mouseEvent now dx dy buttons_state s)
  | .timerTick now => some (timerTick now s)
  | .endTimerTick now => some (endTimerTick now s)
  | .touchUpdate k => sendTouchUpdateBh s k
  | .reset => some (reset s)

end Inferno.MtSpi
