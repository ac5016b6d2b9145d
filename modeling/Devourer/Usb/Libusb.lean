-- What libusb answers, as far as the transport tells it apart.

namespace devourer.usb

/-- What `libusb_submit_transfer` returns. -/
inductive Rc
  | SUCCESS
  | NO_DEVICE
  | OTHER
  deriving DecidableEq

/-- The status of a completed transfer. -/
inductive Status
  | COMPLETED
  | ERROR
  | TIMED_OUT
  | CANCELLED
  | STALL
  | NO_DEVICE
  | OVERFLOW
  deriving DecidableEq

end devourer.usb
