/-
Ch583Kbd.Usb.Descriptors — the descriptors of `usbdesc.c`, in the
configuration of `zora61`.

A pointer of the C code is a `Descriptor` and an offset into it
(`Usb.ControlTransfer`), so that reading beyond an object can be told from
reading the next one.
-/
import Ch583Kbd.Usb.Endpoint

namespace Ch583Kbd.Usb

/-- `USB_DeviceDescriptor`. -/
def usbDeviceDescriptor : List Byte :=
  [0x12, 0x01, 0x00, 0x02, 0x00, 0x00, 0x00, 0x40, 0x20, 0x05, 0x61, 0x00, 0x00, 0x01,
   0x01, 0x02, 0x00, 0x01]

/-- `HID_ReportDescriptor`, of the keyboard. -/
def hidReportDescriptor : List Byte :=
  [0x05, 0x01, 0x09, 0x06, 0xA1, 0x01, 0x05, 0x07, 0x19, 0xE0, 0x29, 0xE7, 0x15, 0x00,
   0x25, 0x01, 0x75, 0x01, 0x95, 0x08, 0x81, 0x02, 0x95, 0x01, 0x75, 0x08, 0x81, 0x03,
   0x95, 0x05, 0x75, 0x01, 0x05, 0x08, 0x19, 0x01, 0x29, 0x05, 0x91, 0x02, 0x95, 0x01,
   0x75, 0x03, 0x91, 0x03, 0x95, 0x06, 0x75, 0x08, 0x15, 0x00, 0x25, 0x66, 0x05, 0x07,
   0x19, 0x00, 0x29, 0x66, 0x81, 0x00, 0xC0]

/-- `HID_ReportDescriptor2`: system and consumer keys, NKRO, mouse. -/
def hidReportDescriptor2 : List Byte :=
  [0x05, 0x01, 0x09, 0x80, 0xA1, 0x01, 0x85, 0x02, 0x15, 0x01, 0x26, 0xB7, 0x00, 0x19,
   0x01, 0x29, 0xB7, 0x75, 0x10, 0x95, 0x01, 0x81, 0x00, 0xC0, 0x05, 0x0C, 0x09, 0x01,
   0xA1, 0x01, 0x85, 0x03, 0x15, 0x01, 0x26, 0x9C, 0x02, 0x19, 0x01, 0x2A, 0x9C, 0x02,
   0x75, 0x10, 0x95, 0x01, 0x81, 0x00, 0xC0, 0x05, 0x01, 0x09, 0x06, 0xA1, 0x01, 0x85,
   0x80, 0x75, 0x01, 0x95, 0x08, 0x05, 0x07, 0x19, 0xE0, 0x29, 0xE7, 0x15, 0x00, 0x25,
   0x01, 0x81, 0x02, 0x95, 0xD8, 0x75, 0x01, 0x15, 0x00, 0x25, 0x01, 0x05, 0x07, 0x19,
   0x00, 0x29, 0xD7, 0x81, 0x02, 0xC0, 0x05, 0x01, 0x09, 0x02, 0xA1, 0x01, 0x85, 0x01,
   0x09, 0x01, 0xA1, 0x00, 0x05, 0x09, 0x19, 0x01, 0x29, 0x05, 0x15, 0x00, 0x25, 0x01,
   0x75, 0x01, 0x95, 0x05, 0x81, 0x02, 0x75, 0x03, 0x95, 0x01, 0x81, 0x03, 0x05, 0x01,
   0x09, 0x30, 0x09, 0x31, 0x15, 0x81, 0x25, 0x7F, 0x75, 0x08, 0x95, 0x02, 0x81, 0x06,
   0x09, 0x38, 0x15, 0x81, 0x25, 0x7F, 0x35, 0x00, 0x45, 0x00, 0x75, 0x08, 0x95, 0x01,
   0x81, 0x06, 0x05, 0x0C, 0x0A, 0x38, 0x02, 0x15, 0x81, 0x25, 0x7F, 0x75, 0x08, 0x95,
   0x01, 0x81, 0x06, 0xC0, 0xC0]

/-- `HID_ReportDescriptor3`, of the configuration interface. -/
def hidReportDescriptor3 : List Byte :=
  [0x06, 0x00, 0xFF, 0x09, 0x00, 0xA1, 0x01, 0x09, 0x20, 0x85, 0x3F, 0x26, 0xFF, 0x00,
   0x15, 0x00, 0x75, 0x08, 0x95, 0x3F, 0x81, 0x02, 0x09, 0x20, 0x85, 0x3F, 0x26, 0xFF,
   0x00, 0x15, 0x00, 0x75, 0x08, 0x95, 0x3F, 0x91, 0x02, 0xC0]

/-- `USB_ConfigDescriptor`: three interfaces with endpoints 0x81, 0x01, 0x82,
0x83 and 0x03. -/
def usbConfigDescriptor : List Byte :=
  [0x09, 0x02, 0x62, 0x00, 0x03, 0x01, 0x00, 0xA0, 0xC8, 0x09, 0x04, 0x00, 0x00, 0x02,
   0x03, 0x01, 0x01, 0x00, 0x09, 0x21, 0x01, 0x01, 0x00, 0x01, 0x22, 0x3F, 0x00, 0x07,
   0x05, 0x81, 0x03, 0x40, 0x00, 0x01, 0x07, 0x05, 0x01, 0x03, 0x40, 0x00, 0x01, 0x09,
   0x04, 0x01, 0x00, 0x01, 0x03, 0x00, 0x00, 0x01, 0x09, 0x21, 0x01, 0x01, 0x00, 0x01,
   0x22, 0xAD, 0x00, 0x07, 0x05, 0x82, 0x03, 0x40, 0x00, 0x01, 0x09, 0x04, 0x02, 0x00,
   0x02, 0x03, 0x00, 0x00, 0x02, 0x09, 0x21, 0x01, 0x01, 0x00, 0x01, 0x22, 0x26, 0x00,
   0x07, 0x05, 0x83, 0x03, 0x40, 0x00, 0x01, 0x07, 0x05, 0x03, 0x03, 0x40, 0x00, 0x01]

/-- `USB_LanguageStringDescriptor`, index 0. -/
def usbLanguageStringDescriptor : List Byte :=
  [0x04, 0x03, 0x09, 0x04]

/-- `USB_ManufacturerStringDescriptor`, index 1. -/
def usbManufacturerStringDescriptor : List Byte :=
  [0x0E, 0x03, 0x5A, 0x00, 0x4F, 0x00, 0x52, 0x00, 0x41, 0x00, 0x4B, 0x00, 0x42, 0x00]

/-- `USB_ProductStringDescriptor`, index 2. -/
def usbProductStringDescriptor : List Byte :=
  [0x10, 0x03, 0x5A, 0x00, 0x4F, 0x00, 0x52, 0x00, 0x4F, 0x00, 0x41, 0x00, 0x44, 0x00,
   0x41, 0x00]

/-- `USB_SerialNumberStringDescriptor`, index 3. -/
def usbSerialNumberStringDescriptor : List Byte :=
  [0x0A, 0x03, 0x5A, 0x00, 0x4F, 0x00, 0x52, 0x00, 0x4F, 0x00]

/-- The objects that `pDescr` can point into. -/
inductive Descriptor where
  | device | config | report | report2 | report3
  | language | manufacturer | product | serialNumber
  deriving DecidableEq, Repr

def Descriptor.bytes : Descriptor → List Byte
  | device => usbDeviceDescriptor
  | config => usbConfigDescriptor
  | report => hidReportDescriptor
  | report2 => hidReportDescriptor2
  | report3 => hidReportDescriptor3
  | language => usbLanguageStringDescriptor
  | manufacturer => usbManufacturerStringDescriptor
  | product => usbProductStringDescriptor
  | serialNumber => usbSerialNumberStringDescriptor

def Descriptor.size (d : Descriptor) : Nat := d.bytes.length

/-- `HID_ReportDescSize`. -/
def hidReportDescSize : BitVec 16 := BitVec.ofNat 16 hidReportDescriptor.length

/-- `HID_ReportDescSize2`. -/
def hidReportDescSize2 : BitVec 16 := BitVec.ofNat 16 hidReportDescriptor2.length

/-- `HID_ReportDescSize3`. -/
def hidReportDescSize3 : BitVec 16 := BitVec.ofNat 16 hidReportDescriptor3.length

def nUsbTotalLength : BitVec 16 := 98

end Ch583Kbd.Usb
