import AirscanDevice.Tree
import AirscanDevice.Url
import AirscanDevice.Options
import AirscanDevice.Device
import AirscanDevice.System
import AirscanDevice.Spec
import AirscanDevice.Invariant
import AirscanDevice.Preserve
import AirscanDevice.Collect
import AirscanDevice.Purge
import AirscanDevice.Reachable
import AirscanDevice.Negotiation
import AirscanDevice.Effects
import AirscanDevice.Refinement
import AirscanDevice.Registry
import AirscanDevice.Lifecycle
import AirscanDevice.Probing
import AirscanDevice.ProbeUrl
import AirscanDevice.Requests
import AirscanDevice.Progress
import AirscanDevice.Service
import AirscanDevice.Handles
