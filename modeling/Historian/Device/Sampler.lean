import Historian.Device.State

/-!
# Periodic sampling

A sampler looks at the device from time to time until it is told to stop.  Meanwhile
the device may get a new configuration.
-/

namespace Historian

/-- What happens while a sampler runs. -/
inductive SamplerEvent where
  /-- It is time to look for samples that are due. -/
  | tick (now : Reading)
  /-- The device gets a new configuration. -/
  | configure (config : DeviceConfig)
  /-- The sampler is told to stop. -/
  | stop

/-- The device after a sampler has run through the events up to the first stop. -/
def Device.sampled (device : Device) : List SamplerEvent → Device
  | [] => device
  | .tick now :: rest => (device.samplePeriodic now).1.sampled rest
  | .configure config :: rest => (Device.ofConfig config).sampled rest
  | .stop :: _ => device

end Historian
